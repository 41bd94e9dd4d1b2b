import StoreCache.Json.Record

/-!
# Schema sets

A store has one key schema and any number of value schemas, each under an id. A schema is kept as
text and **compared as a document**: two texts are the same schema if they have the same JSON value,
however they are spaced, escaped or ordered. A text that is no document is kept all the same and is
equal to nothing, not even to itself.
-/

namespace StoreCache

open Json (Tree Fields Value)

/-- A schema under its id. -/
structure Schema where
  id : Int32
  /-- The schema as registered. -/
  text : String
  deriving DecidableEq

namespace Schema

/-- The document a schema text holds, if it is one. -/
def document? (text : String) : Option Value := Value.parse? text

/-- The fields of a schema, in their fixed order. -/
def fieldNames : List String := ["id", "schema"]

/-- Read a schema. -/
def ofTree? (t : Tree) : Option Schema := do
  let fields ← Fields.ofTree? fieldNames t
  let id ← fields.required? "id" Tree.int32?
  let text ← fields.required? "schema" Tree.string?
  return { id, text }

/-- Read the text of a schema with its id. -/
def parse? (s : String) : Option Schema := (Tree.parse? s).bind ofTree?

end Schema

/-- The key schema and the value schemas of a store. -/
structure SchemaSet where
  /-- The store the schemas belong to. -/
  store : String
  key : Option Schema
  /-- The texts of the value schemas by id. -/
  texts : Dict Int32 String
  deriving DecidableEq

namespace SchemaSet

/-- A set without schemas. -/
def new (store : String) : SchemaSet := ⟨store, none, ∅⟩

/-- The schemas of a store from their texts by id; of several key schemas the one with the least id
counts. -/
def ofTexts (store : String) (keys values : Dict Int32 String) : SchemaSet where
  store := store
  key := keys.toList.head?.map fun e ↦ ⟨e.1, e.2⟩
  texts := values

/-- Set the key schema. -/
def setKey (d : SchemaSet) (s : Schema) : SchemaSet := { d with key := some s }

/-- Add a value schema, replacing the one with its id. -/
def add (d : SchemaSet) (s : Schema) : SchemaSet := { d with texts := d.texts.insert s.id s.text }

/-- The value schema with an id. -/
def value? (d : SchemaSet) (id : Int32) : Option Schema := (d.texts.get? id).map (Schema.mk id)

/-- The value schemas by increasing id. -/
def values (d : SchemaSet) : List Schema := d.texts.toList.map fun e ↦ ⟨e.1, e.2⟩

/-- The number of value schemas. -/
def count (d : SchemaSet) : Nat := d.texts.size

/-- The value schema with the greatest id. -/
def latest? (d : SchemaSet) : Option Schema := d.texts.last?.map fun e ↦ ⟨e.1, e.2⟩

/-- The first value schema, by id, that is the same document as `wanted`. -/
def findDocument? (d : SchemaSet) (wanted : Value) : Option Schema :=
  d.values.find? fun s ↦ decide (Schema.document? s.text = some wanted)

end SchemaSet

end StoreCache
