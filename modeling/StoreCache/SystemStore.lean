/-!
# System stores

Next to each regular store there are *system stores* that carry data about it. A system store is
known by its name alone: the stem of its kind with the name of the regular store behind it. A stem
with nothing behind it is the name of a regular store.
-/

namespace StoreCache

/-- The kinds of system stores. -/
inductive SystemStore
  /-- Carries the metadata of its regular store. -/
  | metadata
  /-- Carries the status of pushes to its regular store. -/
  | pushStatus
  deriving DecidableEq, Repr

namespace SystemStore

/-- All kinds, in the order in which they are looked for. -/
def all : List SystemStore := [.metadata, .pushStatus]

/-- What a kind is called. -/
def label : SystemStore → String
  | .metadata => "meta_store"
  | .pushStatus => "push_status_store"

/-- The stem that begins the names of a kind. -/
def stem : SystemStore → String
  | .metadata => "metacache_system_store_meta_store_"
  | .pushStatus => "metacache_system_store_push_status_store_"

/-- The name of the system store of a regular store. -/
def nameFor (k : SystemStore) (regular : String) : String := k.stem ++ regular

/-- What stands behind a stem, if the name begins with it. -/
def behind? (k : SystemStore) (name : String) : Option String :=
  if k.stem.toList.isPrefixOf name.toList then
    some (String.ofList (name.toList.drop k.stem.toList.length))
  else none

/-- The kind of system store that a name belongs to. -/
def ofName? (name : String) : Option SystemStore :=
  all.find? fun k ↦ (k.behind? name).any (· ≠ "")

/-- The name of the regular store behind a stem; a name with another beginning is left as it is. -/
def regularNameOf (k : SystemStore) (name : String) : String := (k.behind? name).getD name

end SystemStore

/-- The regular store a name leads to: the store itself, or the one a system store belongs to. -/
def regularName (name : String) : String :=
  match SystemStore.ofName? name with
  | some k => k.regularNameOf name
  | none => name

end StoreCache
