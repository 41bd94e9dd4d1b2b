import StoreCache.Dict

/-!
# Freshness

When each cached store was last refreshed, in milliseconds of the cache's clock. Freshness is only
ever reported, never acted on. Its one summary is the age of the stalest store, which is zero rather
than negative when the clock has gone back.
-/

namespace StoreCache

/-- The time of the last complete refresh, by store. -/
structure Freshness where
  times : Dict String Nat
  deriving DecidableEq

namespace Freshness

/-- Nothing tracked. -/
def empty : Freshness := ⟨∅⟩

instance : Inhabited Freshness := ⟨empty⟩

/-- A store has been refreshed. -/
def refreshed (f : Freshness) (store : String) (time : Nat) : Freshness :=
  ⟨f.times.insert store time⟩

/-- A store has left the cache. -/
def forget (f : Freshness) (store : String) : Freshness := ⟨f.times.erase store⟩

/-- When a store was last refreshed. -/
def last? (f : Freshness) (store : String) : Option Nat := f.times.get? store

/-- The number of stores with a known refresh. -/
def tracked (f : Freshness) : Nat := f.times.size

/-- The age of the stalest store. -/
def stalest? (f : Freshness) (now : Nat) : Option Nat := f.times.values.min?.map (now - ·)

/-- The freshness in the Prometheus text format. -/
def prometheus (f : Freshness) (now : Nat) : String :=
  String.join (List.map (· ++ "\n")
    ["# HELP metacache_store_metadata_staleness_high_watermark_ms " ++
       "Age of the stalest cached store metadata",
     "# TYPE metacache_store_metadata_staleness_high_watermark_ms gauge",
     "metacache_store_metadata_staleness_high_watermark_ms " ++
       toString ((f.stalest? now).getD 0),
     "# HELP metacache_cached_stores Stores with a recorded cache refresh",
     "# TYPE metacache_cached_stores gauge",
     "metacache_cached_stores " ++ toString f.tracked])

end Freshness

end StoreCache
