import StoreCache.Freshness
import StoreCache.Journal
import StoreCache.SystemStore

/-!
# The cache

The state of the cache: three dictionaries by store name, the total read quota, the roster of
listeners, the phase, and the journal. A store is **subscribed** if its record is there.

The total read quota is a running total in signed 64 bits that saturates at both ends. A record's
own quota is unsigned and counts for at most the greatest signed number.
-/

namespace StoreCache

/-- The greatest total read quota. -/
def quotaLimit : Int := 0x7fffffffffffffff

/-- Keep a running total within signed 64 bits. -/
def saturate (total : Int) : Int := max (-quotaLimit - 1) (min total quotaLimit)

/-- What a record adds to the total read quota. -/
def Store.quota (s : Store) : Int := min s.readQuota.toNat quotaLimit

/-- The state of the cache. -/
structure Cache where
  /-- The records of the subscribed stores. -/
  stores : Dict String Store
  placements : Dict String Placement
  schemas : Dict String SchemaSet
  totalQuota : Int
  /-- The registered listeners in the order of their registration. -/
  roster : List ListenerId
  phase : Phase
  /-- Whether refreshes are reported to `freshness`. -/
  tracks : Bool
  freshness : Freshness
  /-- The reading of the clock that refreshes are dated by. -/
  clock : Nat
  /-- What the cache has done, newest first. -/
  journal : List Entry

namespace Cache

/-- A cache that has not been started. -/
def new (tracks : Bool) (clock : Nat) : Cache where
  stores := ∅
  placements := ∅
  schemas := ∅
  totalQuota := 0
  roster := []
  phase := .notStarted
  tracks := tracks
  freshness := .empty
  clock := clock
  journal := []

/-- Write an entry into the journal. -/
def note (c : Cache) (e : Entry) : Cache := { c with journal := e :: c.journal }

/-- Start a fetch. -/
def ask (c : Cache) (q : Question) : Cache := c.note (.asked q)

/-! ### The roster -/

/-- Register a listener, unless it is registered; returns whether it was not. -/
def register (c : Cache) (l : ListenerId) : Bool × Cache :=
  if l ∈ c.roster then (false, c)
  else (true, { c with roster := c.roster ++ [l] }.note (.registered l))

/-- Unregister a listener; returns whether it was registered. -/
def unregister (c : Cache) (l : ListenerId) : Bool × Cache :=
  if l ∈ c.roster then
    (true, { c with roster := c.roster.filter (· ≠ l) }.note (.unregistered l))
  else (false, c)

/-! ### Freshness -/

/-- Report that a store has just been refreshed. -/
def reportRefreshed (c : Cache) (store : String) : Cache :=
  let c := c.note (.refreshed store c.clock)
  if c.tracks then { c with freshness := c.freshness.refreshed store c.clock } else c

/-- Report that a store is gone. -/
def reportForgotten (c : Cache) (store : String) : Cache :=
  let c := c.note (.forgotten store)
  if c.tracks then { c with freshness := c.freshness.forget store } else c

/-! ### Reads -/

/-- The record of a store, if subscribed. -/
def store? (c : Cache) (name : String) : Except CacheError (Option Store) := do
  c.phase.usable
  return c.stores.get? name

/-- The record of a store, which must be subscribed. -/
def store (c : Cache) (name : String) : Except CacheError Store := do
  match ← c.store? name with
  | some s => .ok s
  | none => .error (.noSuchStore name none)

/-- Whether a store is subscribed. -/
def has (c : Cache) (name : String) : Except CacheError Bool := do
  c.phase.usable
  return c.stores.contains name

/-- The records of all subscribed stores, by name. -/
def all (c : Cache) : Except CacheError (List Store) := do
  c.phase.usable
  return c.stores.values

/-- The total read quota; a total below zero counts as zero. -/
def readQuota (c : Cache) : Except CacheError Nat := do
  c.phase.usable
  return c.totalQuota.toNat

/-- The batch-read limit of a store. -/
def batchGetLimit (c : Cache) (name : String) : Except CacheError Int32 := do
  return (← c.store name).batchGetLimit

/-- Whether a store computes on read. -/
def readComputation (c : Cache) (name : String) : Except CacheError Bool := do
  return (← c.store name).readComputation

/-- The cluster that hosts a store; a system store is where its regular store is. -/
def cluster? (c : Cache) (name : String) : Except CacheError (Option String) := do
  c.phase.usable
  return (c.placements.get? (regularName name)).map Placement.cluster

/-- What a callback sees when it looks at a store. -/
def glimpse (c : Cache) (name : String) : Glimpse where
  subscribed := c.has name
  quota := c.readQuota
  cluster := c.cluster? name
  phase := c.phase
  version := (c.store? name).map (·.map Store.currentVersion)

end Cache

end StoreCache
