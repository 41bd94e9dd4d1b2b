import StoreCache.Http.Exchange
import StoreCache.Placement
import StoreCache.SchemaSet
import StoreCache.Store

/-!
# The router

A router is asked for **two documents**: where a store is placed, and all of its metadata at once.
The record and the schemas of a store are both taken from the second, each time anew.
-/

namespace StoreCache.Http.Router

open Json (Tree Fields)

/-- The URL of the placement of a store. -/
def placementUrl (base : Url) (store : String) : Url := base.below ["discover_cluster", store]

/-- The URL of the metadata of a store. -/
def metadataUrl (base : Url) (store : String) : Url :=
  base.below ["request_based_metadata", store]

/-! ### Documents -/

/-- The answer to the question where a store is placed. -/
structure Discovery where
  cluster : Option String
  error : Option String
  deriving DecidableEq

/-- Read the answer to the question where a store is placed. -/
def Discovery.ofTree? (t : Tree) : Option Discovery := do
  let fields ← Fields.ofTree? ["cluster", "error"] t
  let cluster ← fields.optional? "cluster" none (Tree.nullable? Tree.string?)
  let error ← fields.optional? "error" none (Tree.nullable? Tree.string?)
  return { cluster, error }

/-- What the answer says about a store; an error counts more than a cluster beside it. -/
def Discovery.placement (d : Discovery) (store : String) : Except FetchError (Option Placement) :=
  match d.error with
  | some e => .error (.undiscovered (store ++ ": " ++ e))
  | none => .ok (d.cluster.map (Placement.new store))

/-- The metadata of a store. -/
structure Metadata where
  /-- The cluster that answered. -/
  cluster : String
  record : Store
  keySchemas : Dict Int32 String
  valueSchemas : Dict Int32 String
  deriving DecidableEq

/-- Read the metadata of a store. -/
def Metadata.ofTree? (t : Tree) : Option Metadata := do
  let fields ← Fields.ofTree? ["cluster", "store", "key_schema", "value_schemas"] t
  let cluster ← fields.required? "cluster" Tree.string?
  let record ← fields.required? "store" Store.ofTree?
  let keySchemas ← fields.optional? "key_schema" ∅ Tree.int32StringMap?
  let valueSchemas ← fields.optional? "value_schemas" ∅ Tree.int32StringMap?
  return { cluster, record, keySchemas, valueSchemas }

/-- The schemas in the metadata of a store. -/
def Metadata.schemas (m : Metadata) (store : String) : SchemaSet :=
  .ofTexts store m.keySchemas m.valueSchemas

/-! ### Questions -/

/-- Ask where a store is placed. -/
def placement (service : Service) (base : Url) (store : String) : Inquiry (Option Placement) :=
  (Inquiry.get service (placementUrl base store) (.undiscovered store)
    Discovery.ofTree?).mapResult (·.bind (·.placement store))

/-- Ask for the metadata of a store. -/
def metadata (service : Service) (base : Url) (store : String) : Inquiry Metadata :=
  .get service (metadataUrl base store) (.notFound store) Metadata.ofTree?

/-- Ask for the record of a store, from whichever cluster. -/
def record (service : Service) (base : Url) (store : String) : Inquiry Store :=
  (metadata service base store).mapResult (·.map Metadata.record)

/-- Ask for the schemas of a store. -/
def schemas (service : Service) (base : Url) (store : String) : Inquiry SchemaSet :=
  (metadata service base store).mapResult (·.map (·.schemas store))

end StoreCache.Http.Router
