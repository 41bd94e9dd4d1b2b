import StoreCache.Refresh

/-!
# Sweeps

A sweep refreshes every store that was subscribed when it began, one after the other. What goes
wrong with one store concerns that store alone: a store found gone is removed, a failed refresh is
left for the next sweep, a store unsubscribed meanwhile is passed over. Each store counts in exactly
one column of the tally.
-/

namespace StoreCache

/-- What became of the stores of a sweep. -/
structure Tally where
  refreshed : Nat
  /-- Left as they were, by a failure that may pass. -/
  failed : Nat
  /-- Found gone and removed. -/
  removed : Nat
  /-- Unsubscribed while their refresh was in flight. -/
  skipped : Nat
  deriving DecidableEq, Repr

namespace Tally

/-- Nothing counted yet. -/
def zero : Tally := ⟨0, 0, 0, 0⟩

/-- The number of stores counted. -/
def total (t : Tally) : Nat := t.refreshed + t.failed + t.removed + t.skipped

/-- Count one store by how its refresh ended. -/
def count (t : Tally) : Except CacheError (Option Store) → Tally
  | .ok (some _) => { t with refreshed := t.refreshed + 1 }
  | .ok none => { t with skipped := t.skipped + 1 }
  | .error e =>
    if e.isNoSuchStore then { t with removed := t.removed + 1 }
    else { t with failed := t.failed + 1 }

@[simp] theorem total_count (t : Tally) (r : Except CacheError (Option Store)) :
    (t.count r).total = t.total + 1 := by
  unfold count
  split
  · simp only [total]; omega
  · simp only [total]; omega
  · split <;> simp only [total] <;> omega

end Tally

/-- A sweep in the middle of one store's refresh. -/
structure Sweep where
  /-- The store being refreshed. -/
  current : String
  stage : Stage
  /-- The stores still to come. -/
  rest : List String
  tally : Tally
  deriving DecidableEq

namespace Sweep

/-- Turn to the next store, if there is one. -/
def advance (tally : Tally) : List String → Cache → (Tally ⊕ Sweep) × Cache
  | [], c => (.inl tally, c)
  | name :: rest, c => (.inr ⟨name, .placement, rest, tally⟩, Refresh.start name c)

/-- Begin a sweep over the stores named. -/
def start (names : List String) (c : Cache) : (Tally ⊕ Sweep) × Cache := advance .zero names c

/-- A store found gone is removed. -/
def settle (b : Behaviour) (name : String) (result : Except CacheError (Option Store)) (c : Cache) :
    Cache :=
  match result with
  | .error e => if e.isNoSuchStore then c.remove b name else c
  | .ok _ => c

/-- Take a sweep from the answer to its open question as far as it goes without another. -/
def resume (b : Behaviour) (s : Sweep) (source : Source) (c : Cache) : (Tally ⊕ Sweep) × Cache :=
  match Refresh.resume b .replace s.current s.stage source c with
  | (.waiting stage, c) => (.inr { s with stage }, c)
  | (.ended result, c) => advance (s.tally.count result) s.rest (settle b s.current result c)

end Sweep

end StoreCache
