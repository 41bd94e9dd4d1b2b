import StoreCache.Json.Record

/-!
# Settings

What a cache and its access to the metadata service are set up with. Intervals are given in whole
seconds and the request timeout in milliseconds; a refresh interval of zero is taken as one second.
-/

namespace StoreCache

open Json (Tree Fields)

/-- Settings of a cache. -/
structure CacheSettings where
  /-- Seconds between sweeps of the whole cache. -/
  refreshInterval : UInt64
  /-- Seconds that shutting down waits for a sweep in progress. -/
  shutdownGrace : UInt64
  /-- Whether to ask a router instead of the metadata service itself. -/
  viaRouter : Bool
  deriving DecidableEq

namespace CacheSettings

/-- The settings of a cache that is given none. -/
def standard : CacheSettings := ⟨60, 60, false⟩

/-- Seconds between sweeps, never zero. -/
def period (s : CacheSettings) : Nat := max 1 s.refreshInterval.toNat

/-- Seconds that shutting down waits. -/
def grace (s : CacheSettings) : Nat := s.shutdownGrace.toNat

/-- The fields of the settings, in their fixed order. -/
def fieldNames : List String :=
  ["refresh_interval_secs", "shutdown_grace_secs", "use_request_based_metadata"]

/-- Read settings; whatever is absent is standard. -/
def ofTree? (t : Tree) : Option CacheSettings := do
  let fields ← Fields.ofTree? fieldNames t
  let refreshInterval ←
    fields.optional? "refresh_interval_secs" standard.refreshInterval Tree.uint64?
  let shutdownGrace ← fields.optional? "shutdown_grace_secs" standard.shutdownGrace Tree.uint64?
  let viaRouter ←
    fields.optional? "use_request_based_metadata" standard.viaRouter Tree.boolean?
  return { refreshInterval, shutdownGrace, viaRouter }

/-- Read the text of settings. -/
def parse? (s : String) : Option CacheSettings := (Tree.parse? s).bind ofTree?

/-- Write settings. -/
def toTree (s : CacheSettings) : Tree :=
  .ofMembers
    [("refresh_interval_secs", .ofNat s.refreshInterval.toNat),
     ("shutdown_grace_secs", .ofNat s.shutdownGrace.toNat),
     ("use_request_based_metadata", .boolean s.viaRouter)]

end CacheSettings

/-- Settings of the access to the metadata service. -/
structure ServiceSettings where
  /-- The address of the service, or of the router. -/
  endpoint : String
  /-- How long a request may take, in milliseconds. -/
  timeout : UInt64
  deriving DecidableEq

namespace ServiceSettings

/-- The settings of an access that is given none. -/
def standard : ServiceSettings := ⟨"http://localhost:7777", 5000⟩

/-- The endpoint without the slashes at its end. -/
def baseUrl (s : ServiceSettings) : String :=
  String.ofList (s.endpoint.toList.reverse.dropWhile (· = '/')).reverse

/-- The fields of the settings, in their fixed order. -/
def fieldNames : List String := ["endpoint", "timeout_ms"]

/-- Read settings; whatever is absent is standard. -/
def ofTree? (t : Tree) : Option ServiceSettings := do
  let fields ← Fields.ofTree? fieldNames t
  let endpoint ← fields.optional? "endpoint" standard.endpoint Tree.string?
  let timeout ← fields.optional? "timeout_ms" standard.timeout Tree.uint64?
  return { endpoint, timeout }

/-- Read the text of settings. -/
def parse? (s : String) : Option ServiceSettings := (Tree.parse? s).bind ofTree?

/-- Write settings. -/
def toTree (s : ServiceSettings) : Tree :=
  .ofMembers [("endpoint", .ofString s.endpoint), ("timeout_ms", .ofNat s.timeout.toNat)]

end ServiceSettings

end StoreCache
