import StoreCache.Http.Exchange
import StoreCache.Placement
import StoreCache.SchemaSet
import StoreCache.Store

/-!
# The thin client

The metadata of a store lies under one key for each part of it, and the thin client asks for **one
key at a time**: the placement, the record on a given cluster, the key schemas, the value schemas. A
key that is not there is an error, but for the placement, where it says that the store has none.
-/

namespace StoreCache.Http.ThinClient

open Json (Tree Fields)

/-- The keys of a store's metadata. -/
inductive Key
  | placement
  | record
  | keySchemas
  | valueSchemas
  deriving DecidableEq, Repr

/-- How a key is written. -/
def Key.name : Key → String
  | .placement => "store_cluster_config"
  | .record => "store_properties"
  | .keySchemas => "store_key_schemas"
  | .valueSchemas => "store_value_schemas"

/-- The URL of a key of a store. -/
def url (base : Url) (store : String) (key : Key) : Url :=
  base.below ["meta_store", store, key.name]

/-- The URL of the record of a store on a cluster. -/
def recordUrl (base : Url) (store cluster : String) : Url :=
  (url base store .record).withParameter "cluster" cluster

/-- What it means that a key is not there. -/
def missing (store : String) (key : Key) : FetchError := .missingKey store key.name

/-! ### Documents -/

/-- Read the placement of a store. -/
def placementOf? (store : String) (t : Tree) : Option Placement := do
  let fields ← Fields.ofTree?
    ["cluster", "deleting", "migration_src_cluster", "migration_dest_cluster"] t
  let cluster ← fields.required? "cluster" Tree.string?
  let deleting ← fields.optional? "deleting" false Tree.boolean?
  let migratesFrom ←
    fields.optional? "migration_src_cluster" none (Tree.nullable? Tree.string?)
  let migratesTo ← fields.optional? "migration_dest_cluster" none (Tree.nullable? Tree.string?)
  return { store, cluster, migratesFrom, migratesTo, deleting }

/-- Read a document whose one field holds schemas by id. -/
def schemasOf? (field : String) (t : Tree) : Option (Dict Int32 String) := do
  let fields ← Fields.ofTree? [field] t
  fields.required? field Tree.int32StringMap?

/-! ### Questions -/

/-- Ask for the placement of a store. -/
def placement (service : Service) (base : Url) (store : String) : Inquiry (Option Placement) :=
  (Inquiry.get service (url base store .placement) (missing store .placement)
    (placementOf? store)).mapResult fun
    | .ok p => .ok (some p)
    | .error (.missingKey _ _) => .ok none
    | .error e => .error e

/-- Ask for the record of a store on a cluster. -/
def record (service : Service) (base : Url) (store cluster : String) : Inquiry Store :=
  .get service (recordUrl base store cluster) (missing store .record) Store.ofTree?

/-- Ask for the schemas of a store: the key schemas, and then the value schemas. -/
def schemas (service : Service) (base : Url) (store : String) : Inquiry SchemaSet :=
  (Inquiry.get service (url base store .keySchemas) (missing store .keySchemas)
    (schemasOf? "key_schema_map")).andThen fun keys ↦
  (Inquiry.get service (url base store .valueSchemas) (missing store .valueSchemas)
    (schemasOf? "value_schema_map")).mapResult fun values ↦
  values.map (SchemaSet.ofTexts store keys)

end StoreCache.Http.ThinClient
