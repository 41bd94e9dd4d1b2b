import StoreCache.Json.Record

/-!
# Placements

A placement says which cluster hosts a store now. During a migration it also names the clusters the
store moves between, and while a store is being deleted its placement says so; such a placement is
as good as none.
-/

namespace StoreCache

open Json (Tree Fields)

/-- Where a store is hosted. -/
structure Placement where
  /-- The store placed. -/
  store : String
  /-- The cluster that hosts the store now. -/
  cluster : String
  /-- The cluster a migration moves the store from. -/
  migratesFrom : Option String
  /-- The cluster a migration moves the store to. -/
  migratesTo : Option String
  /-- Whether the store is being deleted. -/
  deleting : Bool
  deriving DecidableEq

namespace Placement

/-- A store at rest on a cluster. -/
def new (store cluster : String) : Placement := ⟨store, cluster, none, none, false⟩

/-- The fields of a placement, in their fixed order. -/
def fieldNames : List String :=
  ["store_name", "cluster", "migration_src_cluster", "migration_dest_cluster", "deleting"]

/-- Read a placement. -/
def ofTree? (t : Tree) : Option Placement := do
  let fields ← Fields.ofTree? fieldNames t
  let store ← fields.required? "store_name" Tree.string?
  let cluster ← fields.required? "cluster" Tree.string?
  let migratesFrom ←
    fields.optional? "migration_src_cluster" none (Tree.nullable? Tree.string?)
  let migratesTo ← fields.optional? "migration_dest_cluster" none (Tree.nullable? Tree.string?)
  let deleting ← fields.optional? "deleting" false Tree.boolean?
  return { store, cluster, migratesFrom, migratesTo, deleting }

/-- Read the text of a placement. -/
def parse? (s : String) : Option Placement := (Tree.parse? s).bind ofTree?

/-- Write a placement with all its fields. -/
def toTree (p : Placement) : Tree :=
  .ofMembers
    [("store_name", .ofString p.store),
     ("cluster", .ofString p.cluster),
     ("migration_src_cluster", .ofOption .ofString p.migratesFrom),
     ("migration_dest_cluster", .ofOption .ofString p.migratesTo),
     ("deleting", .boolean p.deleting)]

end Placement

end StoreCache
