import StoreCache.Cache

/-!
# Installing and removing

The two ways a record changes the cache, each a stretch of work that nothing else comes between.
Both tell the listeners, and listeners may call back: **a record is taken out before its listeners
are told**, so a callback that unsubscribes the same store finds nothing, and each removal made from
inside another leaves one record fewer. That is why a cascade of callbacks ends, and why
`removeWithin` needs no more levels than there are records.

A notification goes to the listeners that were registered when it began. Failing callbacks are
counted and otherwise ignored.
-/

namespace StoreCache.Cache

/-! ### Notifying -/

/-- Run a callback's script; `unsubscribe` is what removing a store does to the cache. Returns how
the script ended, the cache it left, and what it was told. -/
def run (unsubscribe : String → Cache → Cache) :
    Script → Cache → List Remark → Ending × Cache × List Remark
  | .finish ending, c, remarks => (ending, c, remarks)
  | .register l next, c, remarks =>
    run unsubscribe (next (c.register l).1) (c.register l).2
      (remarks ++ [.changed (c.register l).1])
  | .unregister l next, c, remarks =>
    run unsubscribe (next (c.unregister l).1) (c.unregister l).2
      (remarks ++ [.changed (c.unregister l).1])
  | .unsubscribe name next, c, remarks => run unsubscribe next (unsubscribe name c) remarks
  | .look name next, c, remarks =>
    run unsubscribe (next (c.glimpse name)) c (remarks ++ [.saw (c.glimpse name)])

/-- Make one callback; returns how it ended and the cache it left. -/
def call (unsubscribe : String → Cache → Cache) (b : Behaviour) (event : StoreEvent) (s : Store)
    (l : ListenerId) (c : Cache) : Ending × Cache :=
  let script := b c.journal l event s
  let c := c.note (.called l event s ⟨c.stores, c.totalQuota⟩)
  let (ending, c, remarks) := run unsubscribe script c []
  (ending, c.note (.returned l event s remarks))

/-- Make the callbacks of the listeners given, in order; returns how many failed. -/
def callAll (unsubscribe : String → Cache → Cache) (b : Behaviour) (event : StoreEvent)
    (s : Store) : List ListenerId → Cache → Nat × Cache
  | [], c => (0, c)
  | l :: ls, c =>
    let (ending, c) := call unsubscribe b event s l c
    let (failures, c) := callAll unsubscribe b event s ls c
    (if ending.isFailure then failures + 1 else failures, c)

/-- Tell the registered listeners about a record; returns how many callbacks failed. -/
def notifyWith (unsubscribe : String → Cache → Cache) (b : Behaviour) (event : StoreEvent)
    (s : Store) (c : Cache) : Nat × Cache :=
  callAll unsubscribe b event s c.roster c

/-! ### Removing -/

/-- Change the running total. -/
def addQuota (c : Cache) (delta : Int) : Cache :=
  { c with totalQuota := saturate (c.totalQuota + delta) }

/-- Take a subscribed record out: it is gone from the records, the freshness and the total. -/
def takeOut (c : Cache) (name : String) (s : Store) : Cache :=
  let c := { c with stores := c.stores.erase name }
  let c := c.note (.removed s)
  let c := c.reportForgotten name
  c.addQuota (-s.quota)

/-- Drop the schemas and the placement of a store. -/
def dropRest (c : Cache) (name : String) : Cache :=
  { c with schemas := c.schemas.erase name, placements := c.placements.erase name }

/-- Remove a store, with at most so many removals inside one another. -/
def removeWithin (b : Behaviour) : Nat → String → Cache → Cache
  | 0, _, c => c
  | depth + 1, name, c =>
    match c.stores.get? name with
    | none => (c.reportForgotten name).dropRest name
    | some s =>
      let c := c.takeOut name s
      let c := (notifyWith (removeWithin b depth) b .deleted s c).2
      c.dropRest name

/-- Remove a store: its record, its schemas and its placement, telling the listeners if there was a
record. A record is taken out before a removal inside this one can begin, so there are at most as
many removals inside one another as there are records, and one more that finds nothing. -/
def remove (b : Behaviour) (name : String) (c : Cache) : Cache :=
  removeWithin b (c.stores.size + 1) name c

/-- Tell the registered listeners about a record; returns how many callbacks failed. -/
def notify (b : Behaviour) (event : StoreEvent) (s : Store) (c : Cache) : Nat × Cache :=
  notifyWith (remove b) b event s c

/-- Remove stores one after the other. -/
def removeAll (b : Behaviour) (names : List String) (c : Cache) : Cache :=
  names.foldl (fun c name ↦ c.remove b name) c

/-- Remove the stores named and leave nothing behind. -/
def wipe (b : Behaviour) (names : List String) (c : Cache) : Cache :=
  { c.removeAll b names with
    stores := ∅
    placements := ∅
    schemas := ∅
    totalQuota := 0 }

/-! ### Installing -/

/-- Whether a refresh may bring in a store that is not subscribed. -/
inductive Install
  /-- The store was asked for: put it in, or in the place of what is there. -/
  | upsert
  /-- The store was subscribed when the refresh began: only replace what is there, so that a store
  unsubscribed meanwhile stays away. -/
  | replace
  deriving DecidableEq, Repr

/-- Put a record and its placement into the dictionaries. -/
def put (c : Cache) (p : Placement) (s : Store) : Cache :=
  let previous := c.stores.get? s.name
  let c := { c with
    stores := c.stores.insert s.name s
    placements := c.placements.insert s.name p }
  c.note (.installed previous s p)

/-- Install a fetched record with the placement it was fetched by. The listeners hear of it if it
differs from the record it replaces; a record that replaces none does. Returns the record installed,
or nothing if the store is not subscribed and may not be brought in. -/
def install (b : Behaviour) (mode : Install) (p : Placement) (s : Store) (c : Cache) :
    Except CacheError (Option Store) × Cache :=
  let s := s.completed
  match c.phase.usable with
  | .error e => (.error e, c)
  | .ok () =>
    let previous := c.stores.get? s.name
    if previous = none ∧ mode = .replace then (.ok none, c)
    else
      let c := c.put p s
      if previous = some s then (.ok (some s), c)
      else
        let c := c.addQuota (s.quota - (previous.map Store.quota).getD 0)
        (.ok (some s), (notify b .changed s c).2)

/-- Put a fetched schema set into the cache; the store must be subscribed. -/
def file (name : String) (d : SchemaSet) (c : Cache) : Except CacheError Unit × Cache :=
  match c.phase.usable with
  | .error e => (.error e, c)
  | .ok () =>
    if c.stores.contains name then
      (.ok (), { c with schemas := c.schemas.insert name d }.note (.filed name d))
    else (.error (.noSuchStore name none), c)

end StoreCache.Cache
