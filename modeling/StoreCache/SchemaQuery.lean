import StoreCache.CacheError
import StoreCache.SchemaSet
import StoreCache.Store

/-!
# Questions about schemas

The questions a caller may ask about the schemas of a subscribed store. All but one kind are
answered from the store's schema set alone; the two about the schema that covers all others also
need the store's record, which designates it.

`SchemaQuery.answer` is the policy: given the schema set (and the record where it matters), what the
answer is. How the set comes by is no part of it.
-/

namespace StoreCache

/-- A question about the schemas of a store. -/
inductive SchemaQuery
  /-- The key schema. -/
  | key
  /-- The value schema with an id. -/
  | value (id : Int32)
  /-- Whether there is a value schema with an id. -/
  | hasValue (id : Int32)
  /-- The id of the value schema that is the same document as a text. -/
  | idOf (text : String)
  /-- The value schema that is the same document as a text. -/
  | find (text : String)
  /-- All value schemas. -/
  | all
  /-- The value schema the record designates, else the one with the greatest id. -/
  | latest
  /-- The value schema the record designates. -/
  | superset
  deriving DecidableEq, Repr

/-- The answer to a question about schemas. -/
inductive SchemaAnswer
  | schema (s : Schema)
  | maybe (s : Option Schema)
  | flag (b : Bool)
  | id (i : Option Int32)
  | list (l : List Schema)
  deriving DecidableEq

namespace SchemaQuery

/-- Whether the question needs the record of the store. -/
def needsRecord : SchemaQuery → Bool
  | .latest | .superset => true
  | _ => false

/-- Look a schema text up by its document; a text that is no document is refused. -/
def lookUp (name text : String) (d : SchemaSet) : Except CacheError (Option Schema) :=
  match Schema.document? text with
  | some wanted => .ok (d.findDocument? wanted)
  | none => .error (.invalidSchema name "invalid schema: not a JSON document")

/-- The schema that the record designates, if the set has it. -/
def designated? (record : Option Store) (d : SchemaSet) : Option Schema :=
  (record.bind Store.supersetSchema?).bind d.value?

/-- The answer to a question about the store `name`, from its schema set and, where it is needed,
its record. -/
def answer (name : String) (record : Option Store) (d : SchemaSet) :
    SchemaQuery → Except CacheError SchemaAnswer
  | .key => .ok (.maybe d.key)
  | .value id =>
    match d.value? id with
    | some s => .ok (.schema s)
    | none =>
      .error (.invalidSchema name ("value schema " ++ toString id.toInt ++ " doesn't exist"))
  | .hasValue id => .ok (.flag (d.value? id).isSome)
  | .idOf text => (lookUp name text d).map fun s ↦ .id (s.map Schema.id)
  | .find text => (lookUp name text d).map .maybe
  | .all => .ok (.list d.values)
  | .latest =>
    match (designated? record d).or d.latest? with
    | some s => .ok (.schema s)
    | none => .error (.noLatestSchema name)
  | .superset => .ok (.maybe (designated? record d))

end SchemaQuery

/-- The questions about derived and replication schemas, which the cache never answers. -/
inductive UnansweredQuery
  | derivedId
  | derived
  | allDerived
  | latestDerived
  | replication
  | allReplication
  deriving DecidableEq, Repr

namespace UnansweredQuery

/-- What the question is called in its refusal. -/
def label : UnansweredQuery → String
  | .derivedId => "get_derived_schema_id"
  | .derived => "get_derived_schema"
  | .allDerived => "get_derived_schemas"
  | .latestDerived => "get_latest_derived_schema"
  | .replication => "get_replication_metadata_schema"
  | .allReplication => "get_replication_metadata_schemas"

/-- The refusal, whatever the cache holds and whether or not it is started. -/
def refusal (q : UnansweredQuery) : CacheError := .unsupported q.label

end UnansweredQuery

end StoreCache
