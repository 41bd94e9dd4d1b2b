import StoreCache.Proofs.Lifecycle
import StoreCache.Proofs.ReadThrough

/-!
# Looking schemas up

The questions about the schemas of a store are answered from three things: the schemas by id, what
they are as documents, and the id that the record designates. Each question has its own way through
them, and **all agree about one list** (`accessors_agree`): the schemas by increasing id, under each
id the text that was last added.

Whoever puts a set together does so by a sequence of edits, and the list is a matter of the edits
alone. Texts are looked up as documents, so several schemas may be found by one text, and then the
least id counts; a text that is no document is found by nothing, though its id is listed.
-/

namespace StoreCache

variable {b : Behaviour} {w : World} {id : CallId} {n : String} {q : SchemaQuery} {r : Store}
  {d : SchemaSet}

/-! ### Sets that are put together -/

/-- A step of putting a schema set together. -/
inductive SchemaEdit
  | setKey (s : Schema)
  | add (s : Schema)
  deriving DecidableEq

/-- The text that the edit adds under an id. -/
def SchemaEdit.text? (i : Int32) : SchemaEdit → Option String
  | .setKey _ => none
  | .add s => if s.id = i then some s.text else none

/-- The text last added under an id. -/
def lastText? (i : Int32) (edits : List SchemaEdit) : Option String :=
  (edits.filterMap (SchemaEdit.text? i)).getLast?

namespace SchemaSet

/-- A set after one more edit. -/
def edit (d : SchemaSet) : SchemaEdit → SchemaSet
  | .setKey s => d.setKey s
  | .add s => d.add s

/-- The set that edits make of an empty one. -/
def build (store : String) (edits : List SchemaEdit) : SchemaSet := edits.foldl edit (.new store)

theorem get?_edit (d : SchemaSet) (e : SchemaEdit) (i : Int32) :
    (d.edit e).texts.get? i = (e.text? i).or (d.texts.get? i) := by
  rcases e with s | s
  · rfl
  · show (d.texts.insert s.id s.text).get? i = _
    rw [Dict.get?_insert, SchemaEdit.text?]
    by_cases hi : i = s.id
    · rw [if_pos hi, if_pos hi.symm, Option.some_or]
    · rw [if_neg hi, if_neg (Ne.symm hi), Option.none_or]

/-- **Of several texts under one id the last counts.** -/
theorem get?_build (store : String) (edits : List SchemaEdit) (i : Int32) :
    (build store edits).texts.get? i = lastText? i edits := by
  induction edits using List.reverseRecOn with
  | nil => rfl
  | append_singleton edits e ih =>
    have hbuild : build store (edits ++ [e]) = (build store edits).edit e := List.foldl_concat ..
    rw [hbuild, get?_edit, ih, lastText?, lastText?, List.filterMap_append, List.getLast?_append]
    rcases he : e.text? i with - | text
    · simp [he]
    · simp [he]

/-! ### The list -/

/-- The ids in the list strictly increase. -/
theorem increasing_values (d : SchemaSet) : d.values.Pairwise fun s t ↦ s.id < t.id := by
  rw [values, List.pairwise_map]
  exact d.texts.increasing.imp Std.compare_eq_lt.1

theorem mem_values_iff {s : Schema} : s ∈ d.values ↔ d.texts.get? s.id = some s.text := by
  obtain ⟨i, text⟩ := s
  rw [Dict.get?_eq_some_iff, values, List.mem_map]
  refine ⟨?_, fun h ↦ ⟨_, h, rfl⟩⟩
  rintro ⟨e, he, hs⟩
  obtain ⟨rfl, rfl⟩ := Schema.mk.inj hs
  exact he

/-- Under its id each schema is found. -/
theorem value?_eq_some_iff {i : Int32} {s : Schema} :
    d.value? i = some s ↔ s ∈ d.values ∧ s.id = i := by
  rw [mem_values_iff, value?, Option.map_eq_some_iff]
  constructor
  · rintro ⟨text, htext, rfl⟩
    exact ⟨htext, rfl⟩
  · rintro ⟨htext, rfl⟩
    exact ⟨s.text, htext, rfl⟩

theorem isSome_value?_iff {i : Int32} : (d.value? i).isSome = true ↔ ∃ s ∈ d.values, s.id = i := by
  simp only [Option.isSome_iff_exists, value?_eq_some_iff]

/-- Around a schema the ids are less before it and greater after it. -/
theorem values_around {before after : List Schema} {s : Schema}
    (h : d.values = before ++ s :: after) :
    (∀ t ∈ before, t.id < s.id) ∧ ∀ t ∈ after, s.id < t.id := by
  have hincreasing := d.increasing_values
  rw [h, List.pairwise_append, List.pairwise_cons] at hincreasing
  obtain ⟨-, ⟨hafter, -⟩, hbefore⟩ := hincreasing
  exact ⟨fun t ht ↦ hbefore t ht s List.mem_cons_self, hafter⟩

/-- A document is found under the least of its ids. -/
theorem findDocument?_eq_some_iff {v : Json.Value} {s : Schema} :
    d.findDocument? v = some s ↔ s ∈ d.values ∧ Schema.document? s.text = some v ∧
      ∀ t ∈ d.values, Schema.document? t.text = some v → s.id ≤ t.id := by
  rw [findDocument?, List.find?_eq_some_iff_append]
  constructor
  · rintro ⟨hdoc, before, after, hvalues, hbefore⟩
    refine ⟨hvalues ▸ List.mem_append_right _ List.mem_cons_self, of_decide_eq_true hdoc,
      fun t ht htdoc ↦ ?_⟩
    rw [hvalues, List.mem_append, List.mem_cons] at ht
    rcases ht with hearlier | rfl | hlater
    · have hother := hbefore t hearlier
      simp [htdoc] at hother
    · exact Int32.le_refl _
    · exact Int32.le_of_lt ((values_around hvalues).2 t hlater)
  · rintro ⟨hmem, hdoc, hleast⟩
    obtain ⟨before, after, hvalues⟩ := List.append_of_mem hmem
    refine ⟨decide_eq_true hdoc, before, after, hvalues, fun t ht ↦ ?_⟩
    have hlt : t.id < s.id := (values_around hvalues).1 t ht
    have hother : Schema.document? t.text ≠ some v := fun htdoc ↦
      Int32.not_lt.2 (hleast t (hvalues ▸ List.mem_append_left _ ht) htdoc) hlt
    simp [hother]

theorem findDocument?_eq_none_iff {v : Json.Value} :
    d.findDocument? v = none ↔ ∀ s ∈ d.values, Schema.document? s.text ≠ some v := by
  simp only [findDocument?, List.find?_eq_none, decide_eq_true_eq, ne_eq]

/-- The latest schema is the one with the greatest id. -/
theorem latest?_eq_some_iff {s : Schema} :
    d.latest? = some s ↔ s ∈ d.values ∧ ∀ t ∈ d.values, t.id ≤ s.id := by
  have hlast : d.latest? = d.values.getLast? := by
    rw [latest?, values, List.getLast?_map, Dict.last?]
  rw [hlast, List.getLast?_eq_some_iff]
  constructor
  · rintro ⟨before, hvalues⟩
    refine ⟨hvalues ▸ List.mem_append_right _ List.mem_cons_self, fun t ht ↦ ?_⟩
    rw [hvalues, List.mem_append, List.mem_singleton] at ht
    rcases ht with hearlier | rfl
    · exact Int32.le_of_lt ((values_around hvalues).1 t hearlier)
    · exact Int32.le_refl _
  · rintro ⟨hmem, hgreatest⟩
    obtain ⟨before, after, hvalues⟩ := List.append_of_mem hmem
    rcases after with - | ⟨t, after⟩
    · exact ⟨before, hvalues⟩
    · have ht : t ∈ d.values := by
        rw [hvalues]
        exact List.mem_append_right _ (List.mem_cons_of_mem _ List.mem_cons_self)
      have hlt : s.id < t.id := (values_around hvalues).2 t List.mem_cons_self
      exact absurd hlt (Int32.not_lt.2 (hgreatest t ht))

theorem latest?_eq_none_iff : d.latest? = none ↔ d.values = [] := by
  rw [latest?, Option.map_eq_none_iff, Dict.last?, List.getLast?_eq_none_iff, values,
    List.map_eq_nil_iff]

end SchemaSet

namespace SchemaQuery

/-- Only some questions take the record along, and the others do not look at it. -/
theorem answer_along {c : Cache} (hr : c.stores.get? n = some r) :
    q.answer n (c.along n q) d = q.answer n (some r) d := by
  rcases q with - | i | i | text | text | - | - | - <;>
    first | rfl | exact congrArg (answer n · d _) hr

/-- The schema that the record designates is one of the list. -/
theorem designated?_eq_some_iff {s : Schema} :
    designated? (some r) d = some s ↔ s ∈ d.values ∧ r.supersetSchema? = some s.id := by
  rw [designated?, Option.bind_some, Option.bind_eq_some_iff]
  constructor
  · rintro ⟨i, hi, hs⟩
    obtain ⟨hmem, rfl⟩ := SchemaSet.value?_eq_some_iff.1 hs
    exact ⟨hmem, hi⟩
  · rintro ⟨hmem, hi⟩
    exact ⟨s.id, hi, SchemaSet.value?_eq_some_iff.2 ⟨hmem, rfl⟩⟩

/-! ### What is answered -/

theorem answer_value_iff {i : Int32} {s : Schema} :
    answer n (some r) d (.value i) = .ok (.schema s) ↔ s ∈ d.values ∧ s.id = i := by
  rw [← SchemaSet.value?_eq_some_iff, answer]
  rcases d.value? i with - | t <;> simp

theorem answer_hasValue_iff {i : Int32} :
    answer n (some r) d (.hasValue i) = .ok (.flag true) ↔ ∃ s ∈ d.values, s.id = i := by
  rw [← SchemaSet.isSome_value?_iff, answer]
  simp

section Documents

variable {text : String}

/-- What is no document is refused. -/
theorem answer_of_not_document (h : Schema.document? text = none) :
    ∃ message, answer n (some r) d (.idOf text) = .error (.invalidSchema n message) ∧
      answer n (some r) d (.find text) = .error (.invalidSchema n message) := by
  refine ⟨"invalid schema: not a JSON document", ?_⟩
  rw [answer, answer, lookUp, h]
  exact ⟨rfl, rfl⟩

theorem answer_of_document {v : Json.Value} (h : Schema.document? text = some v) :
    answer n (some r) d (.idOf text) = .ok (.id ((d.findDocument? v).map Schema.id)) ∧
      answer n (some r) d (.find text) = .ok (.maybe (d.findDocument? v)) := by
  rw [answer, answer, lookUp, h]
  exact ⟨rfl, rfl⟩

theorem answer_idOf_eq_error_iff :
    (∃ message, answer n (some r) d (.idOf text) = .error (.invalidSchema n message)) ↔
      Schema.document? text = none := by
  refine ⟨fun ⟨message, herr⟩ ↦ ?_, fun h ↦ ?_⟩
  · rcases hdoc : Schema.document? text with - | v
    · rfl
    · rw [(answer_of_document hdoc).1] at herr
      cases herr
  · obtain ⟨message, hrefused, -⟩ := answer_of_not_document h
    exact ⟨message, hrefused⟩

theorem answer_idOf_eq_some_iff {v : Json.Value} (h : Schema.document? text = some v)
    {i : Int32} : answer n (some r) d (.idOf text) = .ok (.id (some i)) ↔
      ∃ s ∈ d.values, s.id = i ∧ Schema.document? s.text = some v ∧
        ∀ t ∈ d.values, Schema.document? t.text = some v → i ≤ t.id := by
  rw [(answer_of_document h).1, Except.ok.injEq, SchemaAnswer.id.injEq, Option.map_eq_some_iff]
  simp only [SchemaSet.findDocument?_eq_some_iff]
  constructor
  · rintro ⟨s, ⟨hmem, hdoc, hleast⟩, rfl⟩
    exact ⟨s, hmem, rfl, hdoc, hleast⟩
  · rintro ⟨s, hmem, rfl, hdoc, hleast⟩
    exact ⟨s, ⟨hmem, hdoc, hleast⟩, rfl⟩

theorem answer_idOf_eq_none_iff {v : Json.Value} (h : Schema.document? text = some v) :
    answer n (some r) d (.idOf text) = .ok (.id none) ↔
      ∀ s ∈ d.values, Schema.document? s.text ≠ some v := by
  rw [(answer_of_document h).1, Except.ok.injEq, SchemaAnswer.id.injEq, Option.map_eq_none_iff,
    SchemaSet.findDocument?_eq_none_iff]

/-- **A text finds the schema under the id that it is given.** -/
theorem answer_find_eq_some_iff {s : Schema} :
    answer n (some r) d (.find text) = .ok (.maybe (some s)) ↔
      s ∈ d.values ∧ answer n (some r) d (.idOf text) = .ok (.id (some s.id)) := by
  rcases hdoc : Schema.document? text with - | v
  · obtain ⟨message, hid, hfind⟩ := answer_of_not_document (n := n) (r := r) (d := d) hdoc
    rw [hid, hfind]
    simp
  · rw [(answer_of_document hdoc).1, (answer_of_document hdoc).2]
    simp only [Except.ok.injEq, SchemaAnswer.maybe.injEq, SchemaAnswer.id.injEq,
      Option.map_eq_some_iff]
    refine ⟨fun hfound ↦ ⟨(SchemaSet.findDocument?_eq_some_iff.1 hfound).1, s, hfound, rfl⟩, ?_⟩
    rintro ⟨hmem, t, hfound, hid⟩
    -- An id is listed once.
    have ht := SchemaSet.value?_eq_some_iff.2
      ⟨(SchemaSet.findDocument?_eq_some_iff.1 hfound).1, hid⟩
    have hs := SchemaSet.value?_eq_some_iff.2 ⟨hmem, rfl⟩
    rw [hfound, Option.some.inj (ht.symm.trans hs)]

theorem answer_find_eq_none_iff :
    answer n (some r) d (.find text) = .ok (.maybe none) ↔
      answer n (some r) d (.idOf text) = .ok (.id none) := by
  rcases hdoc : Schema.document? text with - | v
  · obtain ⟨message, hid, hfind⟩ := answer_of_not_document (n := n) (r := r) (d := d) hdoc
    rw [hid, hfind]
    simp
  · rw [(answer_of_document hdoc).1, (answer_of_document hdoc).2]
    simp

theorem answer_find_eq_error_iff {err : CacheError} :
    answer n (some r) d (.find text) = .error err ↔
      answer n (some r) d (.idOf text) = .error err := by
  rcases hdoc : Schema.document? text with - | v
  · obtain ⟨message, hid, hfind⟩ := answer_of_not_document (n := n) (r := r) (d := d) hdoc
    rw [hid, hfind]
  · rw [(answer_of_document hdoc).1, (answer_of_document hdoc).2]
    simp

/-- Its own text finds a schema, or one before it. -/
theorem answer_idOf_own {s : Schema} (hmem : s ∈ d.values) (hdoc : Schema.document? s.text ≠ none) :
    ∃ i, i ≤ s.id ∧ answer n (some r) d (.idOf s.text) = .ok (.id (some i)) := by
  obtain ⟨v, hv⟩ := Option.ne_none_iff_exists'.1 hdoc
  rcases hfound : d.findDocument? v with - | t
  · exact absurd hv (SchemaSet.findDocument?_eq_none_iff.1 hfound s hmem)
  · obtain ⟨ht, htdoc, hleast⟩ := SchemaSet.findDocument?_eq_some_iff.1 hfound
    exact ⟨t.id, hleast s hmem hv, (answer_idOf_eq_some_iff hv).2 ⟨t, ht, rfl, htdoc, hleast⟩⟩

end Documents

theorem answer_superset_eq_iff {o : Option Schema} :
    answer n (some r) d .superset = .ok (.maybe o) ↔ designated? (some r) d = o := by
  rw [answer, Except.ok.injEq, SchemaAnswer.maybe.injEq]

theorem answer_latest_of_some {s : Schema} (h : designated? (some r) d = some s) :
    answer n (some r) d .latest = .ok (.schema s) := by
  rw [answer, h]
  rfl

theorem answer_latest_of_none {s : Schema} (h : designated? (some r) d = none) :
    answer n (some r) d .latest = .ok (.schema s) ↔ d.latest? = some s := by
  rw [answer, h, Option.none_or]
  rcases d.latest? with - | t <;> simp

theorem answer_latest_eq_error_iff :
    (∃ err, answer n (some r) d .latest = .error err) ↔ d.values = [] := by
  rcases hdesignated : designated? (some r) d with - | s
  · rw [answer, hdesignated, Option.none_or, ← SchemaSet.latest?_eq_none_iff]
    rcases d.latest? with - | t <;> simp
  · have hmem : s ∈ d.values := (designated?_eq_some_iff.1 hdesignated).1
    rw [answer_latest_of_some hdesignated]
    simp [List.ne_nil_of_mem hmem]

end SchemaQuery

/-! ### Questions that are answered at once -/

namespace World

/-- The call `id` asks a question about the schemas of the store `n`. It returns at once, with the
answer or the refusal `o`, and nothing else happens. -/
def Replies (b : Behaviour) (w : World) (id : CallId) (n : String) (q : SchemaQuery)
    (o : Except CacheError SchemaAnswer) : Prop :=
  w.step b (.call id (.schema n q)) = w.returning id (o.map .schema)

/-- **With record and set at hand a question is answered from them**, and there is one answer. -/
theorem replies_iff (hphase : w.cache.phase = .started) (hr : w.cache.stores.get? n = some r)
    (hd : w.cache.schemas.get? n = some d) (hnew : w.knows id = false)
    {o : Except CacheError SchemaAnswer} :
    w.Replies b id n q o ↔ q.answer n (some r) d = o := by
  have hstep : w.step b (.call id (.schema n q)) =
      w.returning id ((q.answer n (some r) d).map .schema) := by
    have hasking := asking (b := b) (q := q) hnew fun hout ↦ by cases hout.symm.trans hr
    generalize w.step b (.call id (.schema n q)) = u at hasking ⊢
    rcases hasking with hunusable | ⟨hout, -⟩ | ⟨hr', rfl, hnone⟩ | ⟨-, hd'⟩ | ⟨-, hnone⟩
    · exact absurd hphase hunusable
    · cases hout.symm.trans hr
    · obtain rfl := Option.some.inj (hr'.symm.trans hr)
      rw [finish_of_new hnew, SchemaQuery.answer, SchemaQuery.designated?, Option.bind_some, hnone]
      rfl
    · obtain rfl := Option.some.inj (hd'.symm.trans hd)
      rw [finish_of_new hnew, SchemaQuery.answer_along hr]
    · cases hnone.symm.trans hd
  rw [Replies, hstep]
  constructor
  · intro h
    have houtcome := congrArg World.outcomes h
    have hmap := (Prod.mk.inj (List.cons.inj houtcome).1).2
    rcases ha : q.answer n (some r) d with err | a <;> rcases o with err' | a' <;> rw [ha] at hmap
    · exact congrArg _ (Except.error.inj hmap)
    · cases hmap
    · cases hmap
    · exact congrArg _ (Answer.schema.inj (Except.ok.inj hmap))
  · rintro rfl
    rfl

end World

/-! ### The theorem -/

/-- **The answers about the schemas of a store agree.** Let a cache be started and have the record
of the store `n`, and a schema set that has been put together by any edits. Every question is
answered at once, and there is one list that all the answers are about.

* It is what the question for all schemas is answered with. Its ids strictly increase, and a schema
  is in it whose text has been added last under its id.
* An id is said to be there just when it is listed, and then its schema is given.
* A text that is no document is refused, and only such a text is, whether or not anything is listed.
  Any other is given the least id under which the same document is listed, and none if there is no
  such id. The schema that it finds is the one listed under that id.
* If what is listed is a document, its own text is given an id that is not greater than its own.
* The schema that the record designates is given if it is listed. If it is, it is the latest too, and
  if there is none, the latest is the one with the greatest id. No latest is given only if nothing is
  listed. -/
theorem accessors_agree (b : Behaviour) (w : World) (n owner : String) (r : Store)
    (edits : List SchemaEdit) (id : CallId) (hphase : w.cache.phase = .started)
    (hr : w.cache.stores.get? n = some r)
    (hd : w.cache.schemas.get? n = some (.build owner edits)) (hnew : w.knows id = false) :
    ∃ listed : List Schema,
      (∀ q, ∃ o, w.Replies b id n q o) ∧
      (w.Replies b id n .all (.ok (.list listed)) ∧ listed.Pairwise (fun s t ↦ s.id < t.id) ∧
        ∀ s, s ∈ listed ↔ lastText? s.id edits = some s.text) ∧
      (∀ i, (w.Replies b id n (.hasValue i) (.ok (.flag true)) ↔ ∃ s ∈ listed, s.id = i) ∧
        ∀ s, w.Replies b id n (.value i) (.ok (.schema s)) ↔ s ∈ listed ∧ s.id = i) ∧
      (∀ text,
        ((∃ message, w.Replies b id n (.idOf text) (.error (.invalidSchema n message))) ↔
          Schema.document? text = none) ∧
        ∀ v, Schema.document? text = some v →
          (∀ i, w.Replies b id n (.idOf text) (.ok (.id (some i))) ↔
            ∃ s ∈ listed, s.id = i ∧ Schema.document? s.text = some v ∧
              ∀ t ∈ listed, Schema.document? t.text = some v → i ≤ t.id) ∧
          (w.Replies b id n (.idOf text) (.ok (.id none)) ↔
            ∀ s ∈ listed, Schema.document? s.text ≠ some v)) ∧
      (∀ text,
        (∀ s, w.Replies b id n (.find text) (.ok (.maybe (some s))) ↔
          s ∈ listed ∧ w.Replies b id n (.idOf text) (.ok (.id (some s.id)))) ∧
        (w.Replies b id n (.find text) (.ok (.maybe none)) ↔
          w.Replies b id n (.idOf text) (.ok (.id none))) ∧
        ∀ err, w.Replies b id n (.find text) (.error err) ↔
          w.Replies b id n (.idOf text) (.error err)) ∧
      (∀ s ∈ listed, Schema.document? s.text ≠ none →
        ∃ i, i ≤ s.id ∧ w.Replies b id n (.idOf s.text) (.ok (.id (some i)))) ∧
      (∃ o, w.Replies b id n .superset (.ok (.maybe o))) ∧
      (∀ s, w.Replies b id n .superset (.ok (.maybe (some s))) ↔
        s ∈ listed ∧ r.supersetSchema? = some s.id) ∧
      ((∃ err, w.Replies b id n .latest (.error err)) ↔ listed = []) ∧
      (∀ s, w.Replies b id n .superset (.ok (.maybe (some s))) →
        w.Replies b id n .latest (.ok (.schema s))) ∧
      (w.Replies b id n .superset (.ok (.maybe none)) → ∀ s,
        w.Replies b id n .latest (.ok (.schema s)) ↔ s ∈ listed ∧ ∀ t ∈ listed, t.id ≤ s.id) := by
  have hlisted : ∀ s : Schema, s ∈ (SchemaSet.build owner edits).values ↔
      lastText? s.id edits = some s.text := fun s ↦ by
    rw [SchemaSet.mem_values_iff, SchemaSet.get?_build]
  refine ⟨(SchemaSet.build owner edits).values, ?_⟩
  simp only [World.replies_iff hphase hr hd hnew]
  refine ⟨fun q ↦ ⟨_, rfl⟩, ⟨rfl, SchemaSet.increasing_values _, hlisted⟩,
    fun i ↦ ⟨SchemaQuery.answer_hasValue_iff, fun s ↦ SchemaQuery.answer_value_iff⟩,
    fun text ↦ ⟨SchemaQuery.answer_idOf_eq_error_iff, fun v hv ↦
      ⟨fun i ↦ SchemaQuery.answer_idOf_eq_some_iff hv, SchemaQuery.answer_idOf_eq_none_iff hv⟩⟩,
    fun text ↦ ⟨fun s ↦ SchemaQuery.answer_find_eq_some_iff, SchemaQuery.answer_find_eq_none_iff,
      fun err ↦ SchemaQuery.answer_find_eq_error_iff⟩,
    fun s hs hdoc ↦ SchemaQuery.answer_idOf_own hs hdoc, ⟨_, rfl⟩, fun s ↦ ?_,
    SchemaQuery.answer_latest_eq_error_iff, fun s hs ↦ ?_, fun hnone s ↦ ?_⟩
  · rw [SchemaQuery.answer_superset_eq_iff, SchemaQuery.designated?_eq_some_iff]
  · exact SchemaQuery.answer_latest_of_some (SchemaQuery.answer_superset_eq_iff.1 hs)
  · rw [SchemaQuery.answer_latest_of_none (SchemaQuery.answer_superset_eq_iff.1 hnone),
      SchemaSet.latest?_eq_some_iff]

/-- Schemas under four ids: one is added twice, one is no document, and one has a negative id. -/
def ordersEdits : List SchemaEdit :=
  [.add ⟨3, "true"⟩, .add ⟨-4, "[1, 2]"⟩, .add ⟨8, "no document"⟩, .setKey ⟨1, "null"⟩,
    .add ⟨3, "[1,2]"⟩]

/-- A source whose record designates one of them. -/
def Source.designatingNegative : Source where
  placement _ := .ok (some (.new "orders" "east"))
  record _ _ := .ok { Store.new "orders" with supersetSchema := -4 }
  schemas _ := .ok (.build "orders" ordersEdits)

/-- The text that was added last is given, and the designated schema is the latest. -/
theorem accessors_agree_on_orders :
    let w := (World.new true 0).run .silent (subscription "orders" .designatingNegative)
    w.Replies .silent 7 "orders" (.value 3) (.ok (.schema ⟨3, "[1,2]"⟩)) ∧
      w.Replies .silent 7 "orders" .superset (.ok (.maybe (some ⟨-4, "[1, 2]"⟩))) ∧
      w.Replies .silent 7 "orders" .latest (.ok (.schema ⟨-4, "[1, 2]"⟩)) := by
  intro w
  obtain ⟨listed, -, ⟨-, -, hlisted⟩, hid, -, -, -, -, hsuperset, -, hlatest, -⟩ :=
    accessors_agree .silent w "orders" "orders"
      { Store.new "orders" with supersetSchema := -4 } ordersEdits 7
      (by decide) (by decide) (by decide) (by decide)
  have hthird : (⟨3, "[1,2]"⟩ : Schema) ∈ listed := (hlisted _).2 (by decide)
  have hnegative : (⟨-4, "[1, 2]"⟩ : Schema) ∈ listed := (hlisted _).2 (by decide)
  have hdesignated := (hsuperset _).2 ⟨hnegative, by decide⟩
  exact ⟨((hid 3).2 _).2 ⟨hthird, rfl⟩, hdesignated, hlatest _ hdesignated⟩

end StoreCache
