import StoreCache.Json.Record

/-!
# Store records

A *store* is a named collection of data kept elsewhere. Its record holds what a client has to know
before it reads or writes: the serving version, the quotas, the limits, and how keys are spread over
partitions.

Records written by older producers leave fields out. Two different things stand for what is missing:

* **reading** gives an absent field a mark of absence (`batchGetLimit = -1`, no partitioner), so
  that the record read is the record written;
* **`Store.completed`** then replaces the marks by working values, and changes nothing else.

`Store.new`, the record of a store made here and now, already has the working values.
-/

namespace StoreCache

open Json (Tree Fields)

/-- How the keys of a store are spread over its partitions. -/
structure Partitioner where
  /-- The name of the partitioning scheme. -/
  scheme : String
  /-- Sub-partitions for each partition. -/
  amplification : UInt32
  /-- Parameters of the scheme. -/
  params : Dict String String
  deriving DecidableEq

/-- The partitioner of a store that names none. -/
def Partitioner.standard : Partitioner := ⟨"default", 1, ∅⟩

/-- The record of a store. -/
structure Store where
  /-- The name, unique among stores. -/
  name : String
  owner : String
  /-- The version that serves reads. -/
  currentVersion : UInt32
  partitionCount : UInt32
  /-- Read quota in capacity units. -/
  readQuota : UInt64
  /-- Storage quota in bytes. -/
  storageQuota : UInt64
  /-- The most keys a batch read may ask for; negative if unset. -/
  batchGetLimit : Int32
  readComputation : Bool
  readsEnabled : Bool
  writesEnabled : Bool
  /-- The id of the value schema that covers all others, or `noSchema`. -/
  supersetSchema : Int32
  /-- Absent in records of older producers. -/
  partitioner : Option Partitioner
  /-- Creation time in milliseconds. -/
  createdAt : UInt64
  deriving DecidableEq

namespace Store

/-- The id that stands for no schema. -/
def noSchema : Int32 := -1

/-- The batch-read limit of a record that has none. -/
def standardBatchGetLimit : Int32 := 150

/-- A record with nothing but a name, as it is read: the fields older producers leave out are marked
absent. -/
def bare (name : String) : Store where
  name := name
  owner := ""
  currentVersion := 0
  partitionCount := 0
  readQuota := 0
  storageQuota := 0
  batchGetLimit := -1
  readComputation := false
  readsEnabled := true
  writesEnabled := true
  supersetSchema := noSchema
  partitioner := none
  createdAt := 0

/-- The record of a new store. -/
def new (name : String) : Store :=
  { bare name with batchGetLimit := standardBatchGetLimit, partitioner := some .standard }

/-- The id of the value schema that covers all others, if the record designates one. -/
def supersetSchema? (s : Store) : Option Int32 :=
  if s.supersetSchema = noSchema then none else some s.supersetSchema

/-- The record with the fields filled in that older producers leave out. -/
def completed (s : Store) : Store :=
  { s with
    partitioner := some (s.partitioner.getD .standard)
    batchGetLimit := if s.batchGetLimit < 0 then standardBatchGetLimit else s.batchGetLimit }

@[simp] theorem name_completed (s : Store) : s.completed.name = s.name := rfl

end Store

/-! ### Written form -/

namespace Partitioner

/-- The fields of a partitioner, in their fixed order. -/
def fieldNames : List String := ["partitioner_class", "amplification_factor", "params"]

/-- Read a partitioner. -/
def ofTree? (t : Tree) : Option Partitioner := do
  let fields ← Fields.ofTree? fieldNames t
  let scheme ← fields.required? "partitioner_class" Tree.string?
  let amplification ← fields.optional? "amplification_factor" 1 Tree.uint32?
  let params ← fields.optional? "params" ∅ Tree.stringMap?
  return ⟨scheme, amplification, params⟩

/-- The fields of a partitioner as written, in their fixed order. -/
def written (p : Partitioner) : List (String × Tree) :=
  [("partitioner_class", .ofString p.scheme),
   ("amplification_factor", .ofNat p.amplification.toNat),
   ("params", .ofMembers (p.params.toList.map fun e ↦ (e.1, .ofString e.2)))]

/-- Write a partitioner. -/
def toTree (p : Partitioner) : Tree := .ofMembers p.written

end Partitioner

namespace Store

/-- The fields of a record, in their fixed order. -/
def fieldNames : List String :=
  ["name", "owner", "current_version", "partition_count", "read_quota_in_cu",
   "storage_quota_in_byte", "batch_get_limit", "read_computation_enabled", "enable_reads",
   "enable_writes", "latest_superset_value_schema_id", "partitioner_config", "created_time"]

/-- Read a record; every field but the name may be absent. -/
def ofTree? (t : Tree) : Option Store := do
  let fields ← Fields.ofTree? fieldNames t
  let name ← fields.required? "name" Tree.string?
  let absent := bare name
  let owner ← fields.optional? "owner" absent.owner Tree.string?
  let currentVersion ← fields.optional? "current_version" absent.currentVersion Tree.uint32?
  let partitionCount ← fields.optional? "partition_count" absent.partitionCount Tree.uint32?
  let readQuota ← fields.optional? "read_quota_in_cu" absent.readQuota Tree.uint64?
  let storageQuota ← fields.optional? "storage_quota_in_byte" absent.storageQuota Tree.uint64?
  let batchGetLimit ← fields.optional? "batch_get_limit" absent.batchGetLimit Tree.int32?
  let readComputation ←
    fields.optional? "read_computation_enabled" absent.readComputation Tree.boolean?
  let readsEnabled ← fields.optional? "enable_reads" absent.readsEnabled Tree.boolean?
  let writesEnabled ← fields.optional? "enable_writes" absent.writesEnabled Tree.boolean?
  let supersetSchema ←
    fields.optional? "latest_superset_value_schema_id" absent.supersetSchema Tree.int32?
  let partitioner ←
    fields.optional? "partitioner_config" absent.partitioner (Tree.nullable? Partitioner.ofTree?)
  let createdAt ← fields.optional? "created_time" absent.createdAt Tree.uint64?
  return { name, owner, currentVersion, partitionCount, readQuota, storageQuota, batchGetLimit,
           readComputation, readsEnabled, writesEnabled, supersetSchema, partitioner, createdAt }

/-- Read the text of a record. -/
def parse? (s : String) : Option Store := (Tree.parse? s).bind ofTree?

/-- The fields of a record as written, in their fixed order. -/
def written (s : Store) : List (String × Tree) :=
  [("name", .ofString s.name),
   ("owner", .ofString s.owner),
   ("current_version", .ofNat s.currentVersion.toNat),
   ("partition_count", .ofNat s.partitionCount.toNat),
   ("read_quota_in_cu", .ofNat s.readQuota.toNat),
   ("storage_quota_in_byte", .ofNat s.storageQuota.toNat),
   ("batch_get_limit", .ofInt s.batchGetLimit.toInt),
   ("read_computation_enabled", .boolean s.readComputation),
   ("enable_reads", .boolean s.readsEnabled),
   ("enable_writes", .boolean s.writesEnabled),
   ("latest_superset_value_schema_id", .ofInt s.supersetSchema.toInt),
   ("partitioner_config", .ofOption Partitioner.toTree s.partitioner),
   ("created_time", .ofNat s.createdAt.toNat)]

/-- Write a record with all its fields. -/
def toTree (s : Store) : Tree := .ofMembers s.written

end Store

end StoreCache
