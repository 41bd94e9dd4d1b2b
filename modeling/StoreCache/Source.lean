import StoreCache.FetchError
import StoreCache.Placement
import StoreCache.SchemaSet
import StoreCache.Store

/-!
# Sources of metadata

The cache learns about a store by three questions: where it is placed, what its record on that
cluster is, and which schemas it has. A `Source` is **everything the service would answer at one
instant**. A question that takes time is asked of the source as it is when the answer comes, so a
service that changes, fails or contradicts itself is a sequence of sources, and a service at rest is
one source throughout.
-/

namespace StoreCache

/-- A question about a store. -/
inductive Question
  | placement (store : String)
  | record (store cluster : String)
  | schemas (store : String)
  deriving DecidableEq, Repr

/-- What a metadata service answers at one instant. -/
structure Source where
  /-- The placement of a store; nothing if the service has none for it. -/
  placement : String → Except FetchError (Option Placement)
  /-- The record of a store on a cluster. -/
  record : String → String → Except FetchError Store
  /-- The schemas of a store. -/
  schemas : String → Except FetchError SchemaSet

end StoreCache
