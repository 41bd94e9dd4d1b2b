import StoreCache.CacheError

/-!
# The life of a cache

A cache is started once and cleared once. It can be used between the two and at no other time, and
being cleared is final.
-/

namespace StoreCache

/-- Where in its life a cache is. -/
inductive Phase
  | notStarted
  | started
  | cleared
  deriving DecidableEq, Repr

namespace Phase

/-- A cache can be used only while it is started. -/
def usable : Phase → Except CacheError Unit
  | .notStarted => .error .notStarted
  | .started => .ok ()
  | .cleared => .error .cleared

theorem usable_eq_ok_iff {p : Phase} : p.usable = .ok () ↔ p = .started := by
  cases p <;> simp [usable]

/-- A cache that cannot be used does not say that there is no such store. -/
theorem usable_error {p : Phase} {e : CacheError} (h : p.usable = .error e) :
    e.isNoSuchStore = false := by
  cases p <;> cases h <;> rfl

end Phase

end StoreCache
