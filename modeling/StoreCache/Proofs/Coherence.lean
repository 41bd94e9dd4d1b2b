import Mathlib.Data.List.Infix
import StoreCache.Proofs.ReadThrough
import StoreCache.Proofs.Success

/-!
# Which schema a record designates

Two questions about schemas need the record of the store beside its schema set: the one for the
schema that the record designates, and the one for that schema or else the latest. The record is
looked up when the question is asked, and the set, if it has to be fetched, when the answer to the
fetch comes. In between a refresh may put another record in. **The answer is then right for a record
and a set that the cache has never held together** (`not_given_of_replaced`).

What holds is that the answer is the one for the record at the call and for the set at the return
(`answer_of_run`). So it is the answer for a record and a set that are in the cache together, at the
call or at the return, unless a record that designates another schema has been put in meanwhile.
-/

namespace StoreCache

variable {b : Behaviour} {w : World} {e : Event} {id : CallId} {n : String} {q : SchemaQuery}
  {a : SchemaAnswer} {r : Store} {d : SchemaSet}

/-! ### Answers that the cache gives -/

/-- The answer to a question that the record and the schema set in the cache give, if they give one.
The question for the designated schema is answered by a record alone that designates none. -/
def Cache.given? (c : Cache) (n : String) (q : SchemaQuery) : Option SchemaAnswer :=
  match c.stores.get? n with
  | none => none
  | some r =>
    if q = .superset ∧ r.supersetSchema? = none then some (.maybe none)
    else
      match c.schemas.get? n with
      | none => none
      | some d => (q.answer n (some r) d).toOption

theorem Cache.given?_of_undesignated {c : Cache} (hr : c.stores.get? n = some r)
    (hnone : r.supersetSchema? = none) : c.given? n .superset = some (.maybe none) := by
  simp only [given?, hr, hnone, and_self, if_true]

theorem Cache.given?_of_answer {c : Cache} (hr : c.stores.get? n = some r)
    (hd : c.schemas.get? n = some d) (ha : q.answer n (some r) d = .ok a) :
    c.given? n q = some a := by
  by_cases hq : q = .superset ∧ r.supersetSchema? = none
  · -- The set gives no other answer than the record alone.
    obtain ⟨rfl, hnone⟩ := hq
    have hset : SchemaQuery.superset.answer n (some r) d = .ok (.maybe none) := by
      simp [SchemaQuery.answer, SchemaQuery.designated?, hnone]
    rw [given?_of_undesignated hr hnone, Except.ok.inj (hset.symm.trans ha)]
  · simp only [given?, hr, hd, if_neg hq, ha]
    rfl

theorem eq_ok_of_map_schema {result : Except CacheError SchemaAnswer}
    (h : result.map Answer.schema = .ok (.schema a)) : result = .ok a := by
  cases result with
  | error err => cases h
  | ok a' =>
    cases h
    rfl

/-- Of a record only matters which schema it designates. -/
theorem SchemaQuery.answer_congr {r' : Store} (h : r'.supersetSchema? = r.supersetSchema?) :
    q.answer n (some r') d = q.answer n (some r) d := by
  have hdesignated : designated? (some r') d = designated? (some r) d := by
    simp only [designated?, Option.bind_some, h]
  cases q <;> simp only [answer, hdesignated]

namespace World

/-- **An answer given at once is the one that the cache gives.** -/
theorem Returns.given?_of_call (h : w.Returns b (.call id (.schema n q)) id (.ok (.schema a)))
    (hnew : w.knows id = false) (hneeds : q.needsRecord = true)
    (hbare : w.cache.stores.get? n = none → w.cache.schemas.get? n = none) :
    w.cache.given? n q = some a := by
  obtain ⟨hnone, hreturned⟩ := h
  have hasking := asking (b := b) (q := q) hnew hbare
  generalize w.step b (.call id (.schema n q)) = u at hreturned hasking
  cases hasking with
  | unusable | absent => cases List.lookup_cons_self.symm.trans hreturned
  | undesignated hr hq hundesignated =>
    cases List.lookup_cons_self.symm.trans hreturned
    rw [hq, Cache.given?_of_undesignated hr hundesignated]
  | found hr hd =>
    have hanswer := Option.some.inj (List.lookup_cons_self.symm.trans hreturned)
    rw [Cache.along_of_needsRecord hneeds, hr] at hanswer
    exact Cache.given?_of_answer hr hd (eq_ok_of_map_schema hanswer)
  | missing => cases hnone.symm.trans hreturned

/-! ### Questions in flight -/

/-- A question that does not wait when it has been asked has returned for good. -/
theorem not_returns_of_task?_none {o : Outcome} {events : List Event} (hknows : w.knows id)
    (ht : w.task? id = none) : ¬ (w.run b events).Returns b e id o := by
  induction events generalizing w with
  | nil =>
    rintro ⟨hnone, hreturned⟩
    have houtcome := (step_of_task?_none (b := b) hknows ht e).2
    cases hnone.symm.trans (houtcome.symm.trans hreturned)
  | cons e' events ih => exact ih (step_knows hknows e') (step_of_task?_none hknows ht e').1

/-- A question that returns later has taken the record along, and waits. -/
theorem waits_of_returns {o : Outcome} {events : List Event}
    (h : ((w.step b (.call id (.schema n q))).run b events).Returns b e id o)
    (hnew : w.knows id = false) (hneeds : q.needsRecord = true)
    (hbare : w.cache.stores.get? n = none → w.cache.schemas.get? n = none) :
    ∃ r, w.cache.stores.get? n = some r ∧
      (w.step b (.call id (.schema n q))).task? id = some (.schema n q (some r)) := by
  have hasking := asking (b := b) (q := q) hnew hbare
  have hwaits := fun ht ↦ not_returns_of_task?_none (knows_step_call hnew) ht h
  generalize w.step b (.call id (.schema n q)) = v at hwaits hasking
  cases hasking with
  | @missing r hr =>
    rw [Cache.along_of_needsRecord hneeds, hr]
    exact ⟨r, rfl, (task?_wait _ id _ id).trans (if_pos rfl)⟩
  | unusable | absent | undesignated | found =>
    exact absurd ((task?_finish _ id _ id).trans (if_pos rfl)) hwaits

/-- A question that waits does so for one answer. -/
theorem held_run_of_schema (ht : w.task? id = some (.schema n q (some r))) (hknows : w.knows id)
    (events : List Event) : (w.run b events).Held (· = .schema n q (some r)) id := by
  have hheld : w.Held (· = .schema n q (some r)) id :=
    fun t ht' ↦ Option.some.inj (ht'.symm.trans ht)
  refine hheld.run (fun order ↦ nofun) ?_ hknows events
  rintro w source _ t rfl ht
  have hreturned : (w.answer b id source (.schema n q (some r))).task? id = none :=
    (task?_finish _ id _ id).trans (if_pos rfl)
  cases hreturned.symm.trans ht

/-- A question that waits returns when its answer comes. -/
theorem Returns.of_schema {o : Outcome} {events : List Event}
    (h : (w.run b events).Returns b e id o) (ht : w.task? id = some (.schema n q (some r)))
    (hknows : w.knows id) :
    ∃ source, e = .answer id source ∧
      (w.run b events).task? id = some (.schema n q (some r)) := by
  obtain ⟨hnone, hreturned⟩ := h
  have hheld := held_run_of_schema (b := b) ht hknows events
  rcases fate (b := b) (run_knows (b := b) hknows events) e with ⟨-, houtcome⟩ |
    ⟨source, t, rfl, ht', -, -⟩ | ⟨-, houtcome⟩ | ⟨order, ht', -⟩
  · cases hnone.symm.trans (houtcome.symm.trans hreturned)
  · obtain rfl : t = .schema n q (some r) := hheld t ht'
    exact ⟨source, rfl, ht'⟩
  · cases hnone.symm.trans (houtcome.symm.trans hreturned)
  · cases hheld _ ht'

/-- **An answer given later is the one for the record taken along and the set that has come.** -/
theorem Returns.answer_of_schema {source : Source}
    (h : w.Returns b (.answer id source) id (.ok (.schema a)))
    (ht : w.task? id = some (.schema n q (some r))) :
    ∃ d r', source.schemas n = .ok d ∧ q.answer n (some r) d = .ok a ∧
      w.cache.stores.get? n = some r' ∧
      (w.step b (.answer id source)).cache = w.cache.withSchemas n d := by
  obtain ⟨-, hreturned⟩ := h
  have hanswering := answering (b := b) ht source
  generalize w.step b (.answer id source) = u at hreturned hanswering ⊢
  cases hanswering with
  | failed | unusable | discarded => cases List.lookup_cons_self.symm.trans hreturned
  | @filed r' d hd hr' =>
    have hanswer := Option.some.inj (List.lookup_cons_self.symm.trans hreturned)
    exact ⟨d, r', hd, eq_ok_of_map_schema hanswer, hr', rfl⟩

end World

/-- **What a question that needs the record is answered.** An answer given at once is the one that
the record and the set in the cache give. One that is given later is the one for the record that was
there when the question was asked and for the set that has come, which is in the cache when the call
returns, with a record. That record gives the same answer if every record of the store that has been
put in since the call designates the schema that the first one did. -/
theorem answer_of_run (b : Behaviour) (tracks : Bool) (clock : Nat) (before : List Event)
    (id : CallId) (n : String) (q : SchemaQuery) (between : List Event) (e : Event)
    (a : SchemaAnswer) :
    let w := (World.new tracks clock).run b before
    let u := (w.step b (.call id (.schema n q))).run b between
    q.needsRecord = true → w.knows id = false →
    (w.Returns b (.call id (.schema n q)) id (.ok (.schema a)) → w.cache.given? n q = some a) ∧
    (u.Returns b e id (.ok (.schema a)) → ∃ source r d r' since,
      e = .answer id source ∧ source.schemas n = .ok d ∧ w.cache.stores.get? n = some r ∧
      q.answer n (some r) d = .ok a ∧
      (u.step b e).cache.stores.get? n = some r' ∧ (u.step b e).cache.schemas.get? n = some d ∧
      (u.step b e).cache.journal = since ++ w.cache.journal ∧
      ((∀ previous s p, .installed previous s p ∈ since → s.name = n →
          s.supersetSchema? = r.supersetSchema?) →
        (u.step b e).cache.given? n q = some a)) := by
  intro w u hneeds hnew
  have hbare : w.cache.stores.get? n = none → w.cache.schemas.get? n = none :=
    fun hout ↦ congrArg Shelf.schemas (shelf_of_run hout)
  refine ⟨fun h ↦ h.given?_of_call hnew hneeds hbare, fun h ↦ ?_⟩
  have hknows : (w.step b (.call id (.schema n q))).knows id := World.knows_step_call hnew
  obtain ⟨r, hr, ht⟩ := World.waits_of_returns h hnew hneeds hbare
  obtain ⟨source, rfl, htask⟩ := h.of_schema ht hknows
  obtain ⟨d, r', hd, ha, hr', hcache⟩ := h.answer_of_schema htask
  have hin : (u.step b (.answer id source)).cache.stores.get? n = some r' := by rwa [hcache]
  have hset : (u.step b (.answer id source)).cache.schemas.get? n = some d := by
    rw [hcache]
    exact (Dict.get?_insert _ n n d).trans (if_pos rfl)
  obtain ⟨since, hsince, hchronicled⟩ := run_chronicled b w
    (.call id (.schema n q) :: (between ++ [.answer id source]))
  rw [World.run_cons, World.run_concat] at hsince hchronicled
  refine ⟨source, r, d, r', since, rfl, hd, hr, ha, hin, hset, hsince, fun hsame ↦ ?_⟩
  have hdesignated : r'.supersetSchema? = r.supersetSchema? := by
    obtain ⟨-, hstores, -⟩ := hchronicled (named_of_run b tracks clock before)
    rw [hstores] at hin
    rcases installed_of_replayed hin with hbefore | ⟨previous, p, hmem, hname⟩
    · rw [Option.some.inj (hbefore.symm.trans hr)]
    · exact hsame previous r' p hmem hname
  exact Cache.given?_of_answer hin hset ((SchemaQuery.answer_congr hdesignated).trans ha)

/-- A subscription has put a record in and waits for the schemas; a refresh waits for another
record. -/
def refreshUnderway : List Event :=
  ordersUnread ++ [.call 2 (.refresh "orders"), .answer 2 (.designating 2)]

/-- The record comes, and then the schemas that the subscription waits for. -/
def refreshedBy (source : Source) : List Event := [.answer 2 source, .answer 1 source]

/-- A record that designates the same schema does no harm. -/
theorem given?_of_sameDesignation :
    let w := (World.new true 0).run .silent refreshUnderway
    let u := (w.step .silent (.call 3 (.schema "orders" .latest))).run .silent
      (refreshedBy (.designating 1))
    SchemaQuery.latest.needsRecord = true ∧ w.knows 3 = false ∧
      u.Returns .silent (.answer 3 (.designating 1)) 3 (.ok (.schema (.schema ⟨1, "int"⟩))) ∧
      (u.step .silent (.answer 3 (.designating 1))).cache.given? "orders" .latest =
        some (.schema ⟨1, "int"⟩) := by
  have hnew : ((World.new true 0).run .silent refreshUnderway).knows 3 = false := by decide
  obtain ⟨-, hlater⟩ := answer_of_run .silent true 0 refreshUnderway 3 "orders" .latest
    (refreshedBy (.designating 1)) (.answer 3 (.designating 1)) (.schema ⟨1, "int"⟩) rfl hnew
  have hreturns : ((((World.new true 0).run .silent refreshUnderway).step .silent
      (.call 3 (.schema "orders" .latest))).run .silent (refreshedBy (.designating 1))).Returns
        .silent (.answer 3 (.designating 1)) 3 (.ok (.schema (.schema ⟨1, "int"⟩))) :=
    ⟨by decide, by decide⟩
  obtain ⟨_, r, _, _, since, -, -, hr, -, -, -, hsince, hgiven⟩ := hlater hreturns
  have hbefore : (((World.new true 0).run .silent refreshUnderway).cache.stores.get? "orders").bind
      Store.supersetSchema? = some 1 := by decide
  rw [hr] at hbefore
  have hall : ((((World.new true 0).run .silent refreshUnderway).step .silent
      (.call 3 (.schema "orders" .latest))).run .silent (refreshedBy (.designating 1))).step .silent
        (.answer 3 (.designating 1)) |>.cache.journal.all fun x ↦
          ((x.applied .empty).get? "orders").all (·.supersetSchema? = some 1) := by decide
  refine ⟨rfl, hnew, hreturns, hgiven fun previous s p hmem hname ↦ ?_⟩
  have hs := List.all_eq_true.1 hall _ (hsince ▸ List.mem_append_left _ hmem)
  rw [Entry.applied, Dict.get?_insert, if_pos hname.symm] at hs
  exact (of_decide_eq_true hs).trans hbefore.symm

/-- **The answer can be one that the cache never gives.** The record of the subscription designates
the first schema. While the question waits for the schemas, a refresh puts in a record that
designates the second, and only then the set comes, for the subscription and then for the question.
The question is answered with the first schema, and whenever there is a set in the cache, the record
beside it designates the second. No listener is registered, so nothing is seen of the cache inside
an event. -/
theorem not_given_of_replaced :
    ¬ ∀ (b : Behaviour) (tracks : Bool) (clock : Nat) (before : List Event) (id : CallId)
      (n : String) (q : SchemaQuery) (between : List Event) (e : Event) (a : SchemaAnswer),
      let w := (World.new tracks clock).run b before
      let u := (w.step b (.call id (.schema n q))).run b between
      q.needsRecord = true → w.knows id = false → u.Returns b e id (.ok (.schema a)) →
        ∃ earlier, earlier <+: .call id (.schema n q) :: (between ++ [e]) ∧
          (w.run b earlier).cache.given? n q = some a := by
  intro h
  obtain ⟨earlier, hearlier, hgiven⟩ := h .silent true 0 refreshUnderway 3 "orders" .latest
    (refreshedBy (.designating 2)) (.answer 3 (.designating 2)) (.schema ⟨1, "int"⟩) rfl (by decide)
    ⟨by decide, by decide⟩
  have hnever : ∀ earlier ∈ List.inits (.call 3 (.schema "orders" .latest) ::
      (refreshedBy (.designating 2) ++ [.answer 3 (.designating 2)])),
      (((World.new true 0).run .silent refreshUnderway).run .silent earlier).cache.given?
        "orders" .latest ≠ some (.schema ⟨1, "int"⟩) := by
    decide
  exact hnever earlier ((List.mem_inits _ _).2 hearlier) hgiven

end StoreCache
