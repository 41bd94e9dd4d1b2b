import StoreCache.Proofs.Reading
import StoreCache.Store

/-!
# How records may be written

A record has many written forms. As an object it may have its fields in any order and among members
that are none; as an array it has them in their fixed order; and in both, fields may be missing as
long as what a reader takes for a missing field is the value the record has. **All of them are read
back as the record** (`decoding_of_record`).

What a written form is (`Tree.IsRecord`) is said without the reader: field by field, by the
documents that write its value and by whether it may be missing (`Field`). Texts may be escaped in
every way there is (`Spells`), and an integer is written by its digits alone. So the values for
missing fields stand here a second time, on the side of whoever writes.

In between stands what a reader finds under the name of a field: a document that writes the value,
or nothing, and then the field may be missing (`Field.FoundIn`). Objects and arrays come down to
that (`Tree.IsRecord.read`), and from it each field is read by one of two lemmas, for fields that
must be there and for those that need not.
-/

namespace StoreCache

namespace Json

namespace Tree

/-! ### Values -/

/-- The document is a text that spells the string. -/
def IsText (s : String) (t : Tree) : Prop := ∃ q, t = .text q ∧ Spells q s.toList

/-- The document is the truth value. -/
def IsTruth (b : Bool) (t : Tree) : Prop := t = .boolean b

/-- The document is the integer, written by its digits alone. -/
def IsInteger (i : Int) (t : Tree) : Prop := t = ofInt i

/-- The document is an object with the entries of the dictionary, in any order. -/
def IsTextMap (d : Dict String String) (t : Tree) : Prop :=
  ∃ (members : List (Quoted × Tree)) (entries : List (String × String)), t = .object members ∧
    List.Forall₂ (fun m e ↦ Spells m.1 e.1.toList ∧ IsText e.2 m.2) members entries ∧
    entries.Perm d.toList

/-- The document is `null` for no value, and otherwise writes the value. -/
def IsNullable {α : Type} (IsWritten : α → Tree → Prop) : Option α → Tree → Prop
  | none, t => t = .null
  | some a, t => IsWritten a t

theorem IsText.string? {s : String} {t : Tree} (h : t.IsText s) : t.string? = some s := by
  obtain ⟨q, rfl, hq⟩ := h
  exact hq.string?

theorem IsTruth.boolean? {b : Bool} {t : Tree} (h : t.IsTruth b) : t.boolean? = some b := by
  rw [h]
  rfl

/-- The digits of a number write the number. -/
theorem natOfDigits_toDigits (n : Nat) :
    natOfDigits 10 ((Nat.toDigits 10 n).map fun c ↦ c.toNat - 48) = n := by
  have hread := Nat.ofDigitChars_toDigits (b := 10) (n := n) (by decide) (by decide)
  have hzero : '0'.toNat = 48 := rfl
  rw [Nat.ofDigitChars, hzero] at hread
  simpa only [natOfDigits, List.foldl_map, Nat.mul_comm] using hread

theorem IsInteger.integer? {i : Int} {t : Tree} (h : t.IsInteger i) : t.integer? = some i := by
  rw [h]
  show (Numeral.ofInt i).integer? = some i
  simp only [Numeral.integer?, Numeral.ofInt, and_self, if_true, natOfDigits_toDigits]
  by_cases hi : i < 0
  · have hne : i.natAbs ≠ 0 := by omega
    simp only [hi, decide_true, if_true, hne, if_false, Option.some.injEq]
    omega
  · simp only [hi, decide_false, Bool.false_eq_true, if_false, Option.some.injEq]
    omega

theorem IsInteger.natBelow? {bound n : Nat} {t : Tree} (h : t.IsInteger n) (hn : n < bound) :
    t.natBelow? bound = some n := by
  have hrange : (0 : Int) ≤ n ∧ (n : Int) < bound := by omega
  rw [Tree.natBelow?, h.integer?]
  exact if_pos hrange

theorem IsInteger.uint32? {n : UInt32} {t : Tree} (h : t.IsInteger n.toNat) :
    t.uint32? = some n := by
  rw [Tree.uint32?, h.natBelow? n.toNat_lt, Option.map_some, UInt32.ofNat_toNat]

theorem IsInteger.uint64? {n : UInt64} {t : Tree} (h : t.IsInteger n.toNat) :
    t.uint64? = some n := by
  rw [Tree.uint64?, h.natBelow? n.toNat_lt, Option.map_some, UInt64.ofNat_toNat]

theorem IsInteger.int32? {n : Int32} {t : Tree} (h : t.IsInteger n.toInt) : t.int32? = some n := by
  have hrange : Int32.minValue.toInt ≤ n.toInt ∧ n.toInt ≤ Int32.maxValue.toInt :=
    ⟨Int32.le_iff_toInt_le.1 n.minValue_le, Int32.le_iff_toInt_le.1 n.le_maxValue⟩
  rw [Tree.int32?, h.integer?, Option.bind_some, int32OfInt?, if_pos hrange, Int32.ofInt_toInt]

theorem IsTextMap.stringMap? {d : Dict String String} {t : Tree} (h : t.IsTextMap d) :
    t.stringMap? = some d := by
  obtain ⟨members, entries, rfl, hentries, hperm⟩ := h
  have hread : members.mapM (fun m : Quoted × Tree ↦ do
      let key ← m.1.string?
      let s ← m.2.string?
      return (key, s)) = some entries := by
    clear hperm
    induction hentries with
    | nil => rfl
    | cons hentry _ ih =>
      rw [List.mapM_cons, ih]
      simp only [hentry.1.string?, hentry.2.string?, Option.bind_eq_bind, Option.bind_some,
        Option.pure_def]
  rw [Tree.stringMap?, hread, Option.map_some, Dict.ofList_of_perm hperm]

end Tree

/-! ### Fields -/

/-- A field of a record as whoever writes the record sees it. -/
structure Field where
  name : String
  /-- The documents that write its value. -/
  IsWritten : Tree → Prop
  /-- Whether it may be missing: a reader takes its value for a field that is not there. -/
  Dispensable : Prop

/-- The members write the fields, in order, but for some that may be missing. -/
inductive Lists : List Field → Fields → Prop
  | nil : Lists [] []
  | written {f : Field} {t : Tree} {fields : List Field} {listed : Fields} (ht : f.IsWritten t)
    (rest : Lists fields listed) : Lists (f :: fields) ((f.name, t) :: listed)
  | missing {f : Field} {fields : List Field} {listed : Fields} (hf : f.Dispensable)
    (rest : Lists fields listed) : Lists (f :: fields) listed

/-- The items write the fields, in order, up to some place after which all may be missing. -/
inductive Fills : List Field → List Tree → Prop
  | cut {fields : List Field} (hfields : ∀ f ∈ fields, f.Dispensable) : Fills fields []
  | written {f : Field} {t : Tree} {fields : List Field} {items : List Tree} (ht : f.IsWritten t)
    (rest : Fills fields items) : Fills (f :: fields) (t :: items)

/-- **The document writes the fields**: as an object in any order, among any members with other
names, or as an array. -/
inductive Tree.IsRecord (fields : List Field) : Tree → Prop
  | object {members : List (Quoted × Tree)} (listed chosen others : Fields)
    (hnames : List.Forall₂ Names members listed) (hlisted : listed.Perm (chosen ++ others))
    (hchosen : Lists fields chosen) (hothers : ∀ m ∈ others, m.1 ∉ fields.map Field.name) :
    IsRecord fields (.object members)
  | array {items : List Tree} (hitems : Fills fields items) : IsRecord fields (.array items)

/-- What is found under the name of the field writes its value, or nothing is found and it may be
missing. -/
def Field.FoundIn (f : Field) (listed : Fields) : Prop :=
  (∃ t, listed.lookup f.name = some t ∧ f.IsWritten t) ∨
    (listed.lookup f.name = none ∧ f.Dispensable)

theorem Field.FoundIn.cons {f g : Field} {listed : Fields} (h : f.FoundIn listed)
    (hname : f.name ≠ g.name) (t : Tree) : f.FoundIn ((g.name, t) :: listed) := by
  have hother : (f.name == g.name) = false := by simpa using hname
  unfold Field.FoundIn
  rw [List.lookup_cons, hother]
  exact h

theorem Field.foundIn_cons_self {f : Field} {t : Tree} (ht : f.IsWritten t) (listed : Fields) :
    f.FoundIn ((f.name, t) :: listed) :=
  Or.inl ⟨t, List.lookup_cons_self, ht⟩

theorem Lists.sublist {fields : List Field} {listed : Fields} (h : Lists fields listed) :
    (listed.map Prod.fst).Sublist (fields.map Field.name) := by
  induction h with
  | nil => exact .slnil
  | written _ _ ih => exact ih.cons_cons _
  | missing _ _ ih => exact ih.cons _

theorem Lists.foundIn {fields : List Field} {listed : Fields} (h : Lists fields listed)
    (hdistinct : (fields.map Field.name).Nodup) : ∀ f ∈ fields, f.FoundIn listed := by
  induction h with
  | nil => simp
  | @written g t fields listed ht _ ih =>
    obtain ⟨hg, hrest⟩ := List.nodup_cons.1 hdistinct
    refine List.forall_mem_cons.2 ⟨Field.foundIn_cons_self ht listed, fun f hf ↦ ?_⟩
    exact (ih hrest f hf).cons (fun heq ↦ hg (heq ▸ List.mem_map_of_mem hf)) t
  | @missing g fields listed hg rest ih =>
    obtain ⟨hname, hrest⟩ := List.nodup_cons.1 hdistinct
    have hnone : g.name ∉ listed.map Prod.fst := fun hmem ↦ hname (rest.sublist.subset hmem)
    exact List.forall_mem_cons.2 ⟨Or.inr ⟨Fields.lookup_eq_none hnone, hg⟩, ih hrest⟩

theorem Fills.length_le {fields : List Field} {items : List Tree} (h : Fills fields items) :
    items.length ≤ fields.length := by
  induction h with
  | cut => exact Nat.zero_le _
  | written _ _ ih => exact Nat.succ_le_succ ih

theorem Fills.foundIn {fields : List Field} {items : List Tree} (h : Fills fields items)
    (hdistinct : (fields.map Field.name).Nodup) :
    ∀ f ∈ fields, f.FoundIn ((fields.map Field.name).zip items) := by
  induction h with
  | cut hfields =>
    intro f hf
    rw [List.zip_nil_right]
    exact Or.inr ⟨rfl, hfields f hf⟩
  | @written g t fields items ht _ ih =>
    obtain ⟨hg, hrest⟩ := List.nodup_cons.1 hdistinct
    refine List.forall_mem_cons.2 ⟨Field.foundIn_cons_self ht _, fun f hf ↦ ?_⟩
    exact (ih hrest f hf).cons (fun heq ↦ hg (heq ▸ List.mem_map_of_mem hf)) t

/-- **What a reader finds of the fields**, in an object or in an array. -/
theorem Tree.IsRecord.read {fields : List Field} {t : Tree} (h : t.IsRecord fields)
    (hdistinct : (fields.map Field.name).Nodup) :
    ∃ listed, Fields.ofTree? (fields.map Field.name) t = some listed ∧
      ∀ f ∈ fields, f.FoundIn listed := by
  cases h with
  | array hitems =>
    refine ⟨_, if_pos ?_, hitems.foundIn hdistinct⟩
    rw [List.length_map]
    exact hitems.length_le
  | object listed chosen others hnames hlisted hchosen hothers =>
    have hamong : (Fields.among (fields.map Field.name) listed).Perm chosen := by
      have hperm := hlisted.filter (·.1 ∈ fields.map Field.name)
      rw [List.filter_append] at hperm
      have hall : Fields.among (fields.map Field.name) chosen = chosen :=
        Fields.among_eq_self fun f hf ↦ hchosen.sublist.subset (List.mem_map_of_mem hf)
      have hnone : Fields.among (fields.map Field.name) others = [] := Fields.among_eq_nil hothers
      rw [Fields.among] at hall hnone ⊢
      rwa [hall, hnone, List.append_nil] at hperm
    have hchosen' := hchosen.sublist.nodup hdistinct
    have hamong' := (hamong.map Prod.fst).nodup_iff.2 hchosen'
    refine ⟨_, Fields.ofMembers?_of_writes (hnames.imp fun _ _ ↦ Names.writes) hamong', ?_⟩
    intro f hf
    unfold Field.FoundIn
    rw [Fields.lookup_of_perm hamong hamong' f.name]
    exact hchosen.foundIn hdistinct f hf

section Reading

variable {α : Type} {f : Field} {listed : Fields} {read? : Tree → Option α} {a absent : α}

/-- A field that may not be missing is read. -/
theorem Field.FoundIn.required? (h : f.FoundIn listed) (hf : ¬ f.Dispensable)
    (hread : ∀ t, f.IsWritten t → read? t = some a) :
    listed.required? f.name read? = some a := by
  rcases h with ⟨t, ht, hwritten⟩ | ⟨-, hmissing⟩
  · rw [Fields.required?, ht, Option.bind_some, hread t hwritten]
  · exact absurd hmissing hf

/-- Any other field is read, or else its value is what a missing field stands for. -/
theorem Field.FoundIn.optional? (h : f.FoundIn listed) (hf : f.Dispensable → a = absent)
    (hread : ∀ t, f.IsWritten t → read? t = some a) :
    listed.optional? f.name absent read? = some a := by
  rcases h with ⟨t, ht, hwritten⟩ | ⟨hnone, hmissing⟩
  · rw [Fields.optional?, ht]
    exact hread t hwritten
  · rw [Fields.optional?, hnone, hf hmissing]

end Reading

end Json

open Json

/-! ### Records -/

/-- The fields of a partitioner. -/
def Partitioner.fields (p : Partitioner) : List Field :=
  [⟨"partitioner_class", Tree.IsText p.scheme, False⟩,
   ⟨"amplification_factor", Tree.IsInteger p.amplification.toNat, p.amplification = 1⟩,
   ⟨"params", Tree.IsTextMap p.params, p.params = ∅⟩]

/-- The fields of a record. Missing flags for reading and writing stand for `true`, and a missing
limit or schema id for `-1`. -/
def Store.fields (s : Store) : List Field :=
  [⟨"name", Tree.IsText s.name, False⟩,
   ⟨"owner", Tree.IsText s.owner, s.owner = ""⟩,
   ⟨"current_version", Tree.IsInteger s.currentVersion.toNat, s.currentVersion = 0⟩,
   ⟨"partition_count", Tree.IsInteger s.partitionCount.toNat, s.partitionCount = 0⟩,
   ⟨"read_quota_in_cu", Tree.IsInteger s.readQuota.toNat, s.readQuota = 0⟩,
   ⟨"storage_quota_in_byte", Tree.IsInteger s.storageQuota.toNat, s.storageQuota = 0⟩,
   ⟨"batch_get_limit", Tree.IsInteger s.batchGetLimit.toInt, s.batchGetLimit = -1⟩,
   ⟨"read_computation_enabled", Tree.IsTruth s.readComputation, s.readComputation = false⟩,
   ⟨"enable_reads", Tree.IsTruth s.readsEnabled, s.readsEnabled = true⟩,
   ⟨"enable_writes", Tree.IsTruth s.writesEnabled, s.writesEnabled = true⟩,
   ⟨"latest_superset_value_schema_id", Tree.IsInteger s.supersetSchema.toInt,
     s.supersetSchema = -1⟩,
   ⟨"partitioner_config", Tree.IsNullable (fun p ↦ Tree.IsRecord p.fields) s.partitioner,
     s.partitioner = none⟩,
   ⟨"created_time", Tree.IsInteger s.createdAt.toNat, s.createdAt = 0⟩]

theorem Partitioner.ofTree?_of_isRecord {p : Partitioner} {t : Tree} (h : t.IsRecord p.fields) :
    ofTree? t = some p := by
  obtain ⟨listed, hlisted, hfound⟩ := h.read (by simp [fields])
  have hnames : Fields.ofTree? fieldNames t = some listed := hlisted
  simp only [fields, List.forall_mem_cons] at hfound
  obtain ⟨hscheme, hamplification, hparams, -⟩ := hfound
  have hscheme := hscheme.required? id fun _ ↦ Tree.IsText.string?
  have hamplification := hamplification.optional? id fun _ ↦ Tree.IsInteger.uint32?
  have hparams := hparams.optional? id fun _ ↦ Tree.IsTextMap.stringMap?
  simp only [ofTree?, hnames, hscheme, hamplification, hparams, Option.bind_eq_bind,
    Option.bind_some, Option.pure_def]

theorem Partitioner.nullable?_of_isNullable {p : Option Partitioner} {t : Tree}
    (h : t.IsNullable (fun p ↦ Tree.IsRecord p.fields) p) :
    Tree.nullable? ofTree? t = some p := by
  rcases p with - | p
  · obtain rfl : t = .null := h
    rfl
  · have hread := ofTree?_of_isRecord h
    cases h <;> simp only [Tree.nullable?, hread, Option.map_some]

theorem Store.ofTree?_of_isRecord {s : Store} {t : Tree} (h : t.IsRecord s.fields) :
    ofTree? t = some s := by
  obtain ⟨listed, hlisted, hfound⟩ := h.read (by simp [fields])
  have hnames : Fields.ofTree? fieldNames t = some listed := hlisted
  simp only [fields, List.forall_mem_cons] at hfound
  obtain ⟨hname, howner, hversion, hcount, hquota, hstorage, hlimit, hcomputation, hreads, hwrites,
    hsuperset, hpartitioner, hcreated, -⟩ := hfound
  -- One field after the other; rewriting would go through the rest of the reader at each.
  refine Option.bind_eq_some_iff.2 ⟨_, hnames, ?_⟩
  refine Option.bind_eq_some_iff.2 ⟨_, hname.required? id fun _ ↦ Tree.IsText.string?, ?_⟩
  refine Option.bind_eq_some_iff.2 ⟨_, howner.optional? id fun _ ↦ Tree.IsText.string?, ?_⟩
  refine Option.bind_eq_some_iff.2 ⟨_, hversion.optional? id fun _ ↦ Tree.IsInteger.uint32?, ?_⟩
  refine Option.bind_eq_some_iff.2 ⟨_, hcount.optional? id fun _ ↦ Tree.IsInteger.uint32?, ?_⟩
  refine Option.bind_eq_some_iff.2 ⟨_, hquota.optional? id fun _ ↦ Tree.IsInteger.uint64?, ?_⟩
  refine Option.bind_eq_some_iff.2 ⟨_, hstorage.optional? id fun _ ↦ Tree.IsInteger.uint64?, ?_⟩
  refine Option.bind_eq_some_iff.2 ⟨_, hlimit.optional? id fun _ ↦ Tree.IsInteger.int32?, ?_⟩
  refine Option.bind_eq_some_iff.2 ⟨_, hcomputation.optional? id fun _ ↦ Tree.IsTruth.boolean?, ?_⟩
  refine Option.bind_eq_some_iff.2 ⟨_, hreads.optional? id fun _ ↦ Tree.IsTruth.boolean?, ?_⟩
  refine Option.bind_eq_some_iff.2 ⟨_, hwrites.optional? id fun _ ↦ Tree.IsTruth.boolean?, ?_⟩
  refine Option.bind_eq_some_iff.2 ⟨_, hsuperset.optional? id fun _ ↦ Tree.IsInteger.int32?, ?_⟩
  refine Option.bind_eq_some_iff.2 ⟨_, hpartitioner.optional? id fun _ ↦
    Partitioner.nullable?_of_isNullable, ?_⟩
  exact Option.bind_eq_some_iff.2 ⟨_, hcreated.optional? id fun _ ↦ Tree.IsInteger.uint64?, rfl⟩

/-! ### The form with all fields -/

theorem Json.Lists.isRecord {fields : List Field} {listed : Fields} (h : Lists fields listed) :
    (Tree.ofMembers listed).IsRecord fields :=
  .object listed listed [] (names_ofMembers listed) (by rw [List.append_nil]) h nofun

theorem Json.Tree.isText_ofString (s : String) : (ofString s).IsText s :=
  ⟨_, rfl, spells_ofString s⟩

theorem Json.Tree.isTextMap_ofMembers (d : Dict String String) :
    (ofMembers (d.toList.map fun e ↦ (e.1, ofString e.2))).IsTextMap d := by
  refine ⟨_, d.toList, rfl, ?_, .rfl⟩
  induction d.toList with
  | nil => exact .nil
  | cons e entries ih => exact .cons ⟨spells_ofString e.1, isText_ofString e.2⟩ ih

theorem Partitioner.isRecord_toTree (p : Partitioner) : p.toTree.IsRecord p.fields :=
  Lists.isRecord <| .written (Tree.isText_ofString p.scheme) <| .written rfl <|
    .written (Tree.isTextMap_ofMembers p.params) .nil

/-- **Every record has a written form**, the one with all its fields in their fixed order. -/
theorem Store.isRecord_toTree (s : Store) : s.toTree.IsRecord s.fields := by
  have hpartitioner : (Tree.ofOption Partitioner.toTree s.partitioner).IsNullable
      (fun p ↦ Tree.IsRecord p.fields) s.partitioner := by
    rcases s.partitioner with - | p
    · rfl
    · exact p.isRecord_toTree
  exact Lists.isRecord <| .written (Tree.isText_ofString s.name) <|
    .written (Tree.isText_ofString s.owner) <| .written rfl <| .written rfl <| .written rfl <|
    .written rfl <| .written rfl <| .written rfl <| .written rfl <| .written rfl <| .written rfl <|
    .written hpartitioner <| .written rfl .nil

theorem Store.ofTree?_toTree (s : Store) : ofTree? s.toTree = some s :=
  ofTree?_of_isRecord s.isRecord_toTree

/-! ### Completing -/

/-- Completing a record touches two fields. -/
theorem Store.completed_eq (s : Store) :
    s.completed = { s with
      partitioner := s.completed.partitioner
      batchGetLimit := s.completed.batchGetLimit } := rfl

theorem Store.partitioner_completed {s : Store} (h : s.partitioner ≠ none) :
    s.completed.partitioner = s.partitioner := by
  obtain ⟨p, hp⟩ := Option.ne_none_iff_exists'.1 h
  rw [completed, hp, Option.getD_some]

theorem Store.batchGetLimit_completed {s : Store} (h : ¬ s.batchGetLimit < 0) :
    s.completed.batchGetLimit = s.batchGetLimit :=
  if_neg h

/-- A completed record has a partitioner, and a limit that is none below zero. -/
theorem Store.complete_completed (s : Store) :
    s.completed.partitioner ≠ none ∧ ¬ s.completed.batchGetLimit < 0 := by
  refine ⟨Option.some_ne_none _, ?_⟩
  show ¬ (if s.batchGetLimit < 0 then standardBatchGetLimit else s.batchGetLimit) < 0
  split
  · decide
  · assumption

/-- A record with nothing missing stays as it is. -/
theorem Store.completed_of_complete {s : Store} (hpartitioner : s.partitioner ≠ none)
    (hlimit : ¬ s.batchGetLimit < 0) : s.completed = s := by
  rw [completed_eq, partitioner_completed hpartitioner, batchGetLimit_completed hlimit]

/-- **Reading undoes writing.** Every written form of a record, as a document or as the text of one,
is read back as the record, whichever of the fields that may be missing are missing, in whatever
order the others stand and whatever stands among them. Completing the record then changes its
partitioner if it has none, and its batch-read limit if that is below zero, and nothing else; and
completing it once more changes nothing. -/
theorem decoding_of_record (s : Store) :
    (∀ t : Tree, t.IsRecord s.fields → Store.ofTree? t = some s ∧
      ∀ text, Tree.parse? text = some t → Store.parse? text = some s) ∧
    s.completed = { s with
      partitioner := s.completed.partitioner
      batchGetLimit := s.completed.batchGetLimit } ∧
    (s.partitioner ≠ none → s.completed.partitioner = s.partitioner) ∧
    (s.partitioner = none → s.completed.partitioner = some ⟨"default", 1, ∅⟩) ∧
    (¬ s.batchGetLimit < 0 → s.completed.batchGetLimit = s.batchGetLimit) ∧
    (s.batchGetLimit < 0 → s.completed.batchGetLimit = 150) ∧
    s.completed.completed = s.completed := by
  refine ⟨fun t ht ↦ ?_, s.completed_eq, Store.partitioner_completed, fun hnone ↦ ?_,
    Store.batchGetLimit_completed, fun hlimit ↦ if_pos hlimit, ?_⟩
  · have hread := Store.ofTree?_of_isRecord ht
    exact ⟨hread, fun text htext ↦ by rw [Store.parse?, htext, Option.bind_some, hread]⟩
  · rw [Store.completed, hnone, Option.getD_none]
    rfl
  · obtain ⟨hpartitioner, hlimit⟩ := s.complete_completed
    exact Store.completed_of_complete hpartitioner hlimit

/-- A record with two fields that are not what a missing field stands for, … -/
def Store.terse : Store := { bare "orders" with
  partitioner := some ⟨"hash", 1, ∅⟩
  createdAt := 5 }

/-- … written from the last field to the first behind a member that is no field, with escapes, and
without a partitioner's fields that may be missing, … -/
def terseObject : String :=
  "\x7b\"tags\":[null],\"created_time\":5,\"partitioner_config\":" ++
    "\x7b\"partitioner_class\":\"h\\u0061sh\"\x7d,\"n\\u0061me\":\"orders\"\x7d"

/-- … and a record written as an array that is cut after the second field. -/
def terseArray : String := "[\"orders\",\"\\ud83d\\ude00\"]"

theorem decoding_of_terse :
    (∃ t : Tree, t.IsRecord Store.terse.fields ∧ Tree.parse? terseObject = some t) ∧
      Store.parse? terseObject = some .terse ∧
      Store.parse? terseArray = some { Store.bare "orders" with owner := "😀" } := by
  let hash : Quoted := [.plain 'h', .unit 0x61, .plain 's', .plain 'h']
  let name : Quoted := [.plain 'n', .unit 0x61, .plain 'm', .plain 'e']
  let face : Quoted := [.unit 0xD83D, .unit 0xDE00]
  have hhash : Spells hash "hash".toList :=
    .plain 'h' <| .unit 'a' (by decide) <| .plain 's' <| .plain 'h' .nil
  have hname : Spells name "name".toList :=
    .plain 'n' <| .unit 'a' (by decide) <| .plain 'm' <| .plain 'e' .nil
  have hface : Spells face "😀".toList := .pair '😀' (by decide) .nil
  let partitioner : Tree := .object [(Quoted.ofString "partitioner_class", .text hash)]
  let record : Tree := .object [(Quoted.ofString "tags", .array [.null]),
    (Quoted.ofString "created_time", .ofNat 5), (Quoted.ofString "partitioner_config", partitioner),
    (name, .ofString "orders")]
  have hpartitioner : partitioner.IsRecord (Partitioner.fields ⟨"hash", 1, ∅⟩) :=
    .object [("partitioner_class", .text hash)] _ []
      (.cons ⟨spells_ofString "partitioner_class", rfl⟩ .nil) .rfl
      (.written ⟨_, rfl, hhash⟩ <| .missing rfl <| .missing rfl .nil) nofun
  have hobject : record.IsRecord Store.terse.fields := by
    let fields : Fields := [("name", .ofString "orders"), ("partitioner_config", partitioner),
      ("created_time", .ofNat 5)]
    let others : Fields := [("tags", .array [.null])]
    refine .object (fields ++ others).reverse fields others
      (.cons ⟨spells_ofString "tags", rfl⟩ <| .cons ⟨spells_ofString "created_time", rfl⟩ <|
        .cons ⟨spells_ofString "partitioner_config", rfl⟩ <| .cons ⟨hname, rfl⟩ .nil)
      (List.reverse_perm _) (.written (Tree.isText_ofString "orders") <| .missing rfl <|
        .missing rfl <| .missing rfl <| .missing rfl <| .missing rfl <| .missing rfl <|
        .missing rfl <| .missing rfl <| .missing rfl <| .missing rfl <| .written hpartitioner <|
        .written rfl .nil) ?_
    simp [others, Store.fields]
  have harray : (Tree.array [.ofString "orders", .text face]).IsRecord
      (Store.fields { Store.bare "orders" with owner := "😀" }) := by
    refine .array (.written (Tree.isText_ofString "orders") <| .written ⟨_, rfl, hface⟩ <|
      .cut ?_)
    simp [Store.bare, Store.noSchema]
  have hobject' : Tree.parse? terseObject = some record :=
    Tree.parse?_of_tokens [.openBrace, .text (.ofString "tags"), .colon, .openBracket, .null,
      .closeBracket, .comma, .text (.ofString "created_time"), .colon, .number (.ofInt 5), .comma,
      .text (.ofString "partitioner_config"), .colon, .openBrace,
      .text (.ofString "partitioner_class"), .colon, .text hash, .closeBrace, .comma, .text name,
      .colon, .text (.ofString "orders"), .closeBrace] (by decide +kernel) rfl
  have harray' : Tree.parse? terseArray = some (.array [.ofString "orders", .text face]) :=
    Tree.parse?_of_tokens [.openBracket, .text (.ofString "orders"), .comma, .text face,
      .closeBracket] (by decide +kernel) rfl
  exact ⟨⟨record, hobject, hobject'⟩, ((decoding_of_record _).1 _ hobject).2 _ hobject',
    ((decoding_of_record _).1 _ harray).2 _ harray'⟩

end StoreCache
