import StoreCache.Proofs.Chronicle
import StoreCache.Proofs.Shape

/-!
# Reading schemas through the cache

A question about the schemas of a store is answered from the schema set in the cache, and if there
is none the set is fetched first. Whether the store is subscribed is looked up twice, before the
fetch and after it, and in between the store may be unsubscribed, subscribed again, and its set may
be filed by somebody else.

**How a question goes is decided in two places** (`readThrough_of_run`). Where it is asked, the
store is not subscribed, or its set is there, or one fetch is made and nothing else is done. Where
the answer to the fetch comes, which is the next and last that the call does, the set is filed if
the store is subscribed then. The one question that stays out of this is for the schema that a
record designates where the record designates none (`Cache.Reads`).

A set that is there stays as long as its record does, whatever else happens to the store
(`Cache.Retains`), so while the store does not leave no question fetches again.
-/

namespace StoreCache

variable {b : Behaviour} {w u : World} {e : Event} {id : CallId} {n : String} {q : SchemaQuery}

namespace Cache

/-- The question is about the schema set of the store. All are, but for the one for the schema that
the record designates, if the record designates none. -/
def Reads (c : Cache) (n : String) (q : SchemaQuery) : Prop :=
  ∀ s, c.stores.get? n = some s → q = .superset → s.supersetSchema? ≠ none

/-- The record that a question takes along, if it needs one. -/
def along (c : Cache) (n : String) (q : SchemaQuery) : Option Store :=
  if q.needsRecord then c.stores.get? n else none

theorem along_of_needsRecord {c : Cache} (h : q.needsRecord = true) :
    c.along n q = c.stores.get? n :=
  if_pos h

theorem along_of_not_needsRecord {c : Cache} (h : ¬ q.needsRecord = true) : c.along n q = none :=
  if_neg h

/-- The store `n` is subscribed and its schema set is there. -/
def Stocks (n : String) (c : Cache) : Prop := c.stores.get? n ≠ none ∧ c.schemas.get? n ≠ none

/-- The cache with a schema set filed. -/
def withSchemas (c : Cache) (n : String) (d : SchemaSet) : Cache :=
  { c with schemas := c.schemas.insert n d }.note (.filed n d)

end Cache

namespace World

variable {record : Option Store}

/-! ### Where the question is asked -/

/-- How a question begins. -/
inductive Asking (w : World) (id : CallId) (n : String) (q : SchemaQuery) : World → Prop
  | unusable {err : CacheError} (hphase : w.cache.phase ≠ .started) :
    Asking w id n q (w.finish id (.error err))
  | absent (hs : w.cache.stores.get? n = none) (hd : w.cache.schemas.get? n = none) :
    Asking w id n q (w.finish id (.error (.noSuchStore n none)))
  /-- The record alone is the answer. -/
  | undesignated {r : Store} (hr : w.cache.stores.get? n = some r) (hq : q = .superset)
    (hnone : r.supersetSchema? = none) : Asking w id n q (w.finish id (.ok (.schema (.maybe none))))
  /-- The set is there. -/
  | found {r : Store} {d : SchemaSet} (hr : w.cache.stores.get? n = some r)
    (hd : w.cache.schemas.get? n = some d) :
    Asking w id n q (w.finish id ((q.answer n (w.cache.along n q) d).map .schema))
  /-- The set is fetched. -/
  | missing {r : Store} (hr : w.cache.stores.get? n = some r)
    (hd : w.cache.schemas.get? n = none) :
    Asking w id n q
      ((w.withCache (w.cache.ask (.schemas n))).wait id (.schema n q (w.cache.along n q)))

/-- A question that needs the set begins by looking for it. -/
theorem asking_beginSchema
    (hbare : w.cache.stores.get? n = none → w.cache.schemas.get? n = none) :
    Asking w id n q (w.beginSchema id n q (w.cache.along n q)) := by
  rcases hr : w.cache.stores.get? n with - | r
  · simpa only [beginSchema, hbare hr, Dict.contains, hr] using .absent hr (hbare hr)
  · rcases hd : w.cache.schemas.get? n with - | d
    · simpa only [beginSchema, hd, Dict.contains, hr] using .missing hr hd
    · simpa only [beginSchema, hd] using .found hr hd

theorem asking (hnew : w.knows id = false)
    (hbare : w.cache.stores.get? n = none → w.cache.schemas.get? n = none) :
    Asking w id n q (w.step b (.call id (.schema n q))) := by
  have hbegun : ∀ record, w.cache.along n q = record →
      Asking w id n q (w.beginSchema id n q record) := fun _ h ↦ h ▸ asking_beginSchema hbare
  rw [step_call hnew]
  simp only [call]
  split
  · rename_i err herr
    exact .unusable fun hphase ↦ by cases (Phase.usable_eq_ok_iff.2 hphase).symm.trans herr
  · split
    · rename_i hneeds
      rcases hr : w.cache.stores.get? n with - | r
      · exact .absent hr (hbare hr)
      · dsimp only
        split
        · rename_i hq
          exact .undesignated hr hq.1 hq.2
        · exact hbegun _ ((Cache.along_of_needsRecord hneeds).trans hr)
    · rename_i hneeds
      exact hbegun _ (Cache.along_of_not_needsRecord hneeds)

/-- **A set that is there is never fetched.** -/
theorem cache_step_schema (h : w.cache.Stocks n) :
    (w.step b (.call id (.schema n q))).cache = w.cache := by
  obtain ⟨hin, hset⟩ := h
  cases hknows : w.knows id with
  | true => simp only [step, hknows, if_true]
  | false =>
    have hasking := asking (b := b) (q := q) hknows fun hout ↦ absurd hout hin
    generalize w.step b (.call id (.schema n q)) = v at hasking ⊢
    cases hasking with
    | missing _ hnone => exact absurd hnone hset
    | unusable | absent | undesignated | found => rfl

/-! ### Where the answer comes -/

/-- How a question ends that has waited. -/
inductive Answering (w : World) (id : CallId) (n : String) (q : SchemaQuery)
    (record : Option Store) (source : Source) : World → Prop
  /-- The error is passed on. -/
  | failed {err : FetchError} (he : source.schemas n = .error err) :
    Answering w id n q record source (w.finish id (.error (.ofFetch n err)))
  | unusable {err : CacheError} (hphase : w.cache.phase ≠ .started) :
    Answering w id n q record source (w.finish id (.error err))
  /-- The store has been unsubscribed, and the set is thrown away. -/
  | discarded {d : SchemaSet} (hd : source.schemas n = .ok d)
    (hr : w.cache.stores.get? n = none) :
    Answering w id n q record source (w.finish id (.error (.noSuchStore n none)))
  /-- The set is filed. -/
  | filed {r : Store} {d : SchemaSet} (hd : source.schemas n = .ok d)
    (hr : w.cache.stores.get? n = some r) :
    Answering w id n q record source
      ((w.withCache (w.cache.withSchemas n d)).finish id ((q.answer n record d).map .schema))

theorem answering (ht : w.task? id = some (.schema n q record)) (source : Source) :
    Answering w id n q record source (w.step b (.answer id source)) := by
  rw [step_answer_of_some ht]
  rcases hd : source.schemas n with err | d
  · simp only [answer, Refresh.fileSchemas, hd]
    exact .failed hd
  · have hf := Cache.filing n d w.cache
    simp only [answer, Refresh.fileSchemas, hd]
    generalize w.cache.file n d = next at hf ⊢
    cases hf with
    | refused hphase => exact .unusable hphase
    | absent _ hr => exact .discarded hd hr
    | filed _ hr => exact .filed hd hr

/-- While the cache is in use the answer alone decides, and whether the store is subscribed then. -/
theorem Answering.eq_of_started {source : Source} (h : Answering w id n q record source u)
    (hphase : w.cache.phase = .started) :
    (∀ err, source.schemas n = .error err → u = w.finish id (.error (.ofFetch n err))) ∧
    (∀ d, source.schemas n = .ok d →
      (w.cache.stores.get? n = none → u = w.finish id (.error (.noSuchStore n none))) ∧
      (w.cache.stores.get? n ≠ none → u = (w.withCache (w.cache.withSchemas n d)).finish id
        ((q.answer n record d).map .schema))) := by
  cases h with
  | failed he =>
    refine ⟨fun err he' ↦ ?_, fun d hd ↦ ?_⟩
    · cases he.symm.trans he'
      rfl
    · cases he.symm.trans hd
  | unusable hclosed => exact absurd hphase hclosed
  | discarded hset hout =>
    refine ⟨fun err he ↦ ?_, fun _ _ ↦ ⟨fun _ ↦ rfl, fun hin ↦ absurd hout hin⟩⟩
    cases hset.symm.trans he
  | filed hset hin =>
    refine ⟨fun err he ↦ ?_, fun d hd ↦ ⟨fun hout ↦ ?_, fun _ ↦ ?_⟩⟩
    · cases hset.symm.trans he
    · cases hout.symm.trans hin
    · cases hset.symm.trans hd
      rfl

/-! ### In between -/

/-- Nobody clears the cache, and the call `id` is neither answered nor given up. -/
def Unhindered (id : CallId) (events : List Event) : Prop :=
  ∀ e ∈ events, (∀ i order, e ≠ .call i (.clear order)) ∧ (∀ source, e ≠ .answer id source) ∧
    e ≠ .abandon id

/-- A call that waits for an answer waits on. -/
theorem task?_run_of_unhindered {t : Task} (hknows : w.knows id) (ht : w.task? id = some t)
    (hclear : ∀ order, t ≠ .clear order) {events : List Event} (h : Unhindered id events) :
    (w.run b events).task? id = some t ∧
      (w.run b events).outcomes.lookup id = w.outcomes.lookup id := by
  induction events generalizing w with
  | nil => exact ⟨ht, rfl⟩
  | cons e events ih =>
    obtain ⟨-, hunanswered, hstays⟩ := h e List.mem_cons_self
    obtain ⟨htask | hgone, houtcome⟩ := step_of_unanswered (b := b) hknows ht hclear hunanswered
    · have hrest : Unhindered id events := fun e' he' ↦ h e' (List.mem_cons_of_mem e he')
      obtain ⟨htask', houtcome'⟩ := ih (step_knows hknows e) htask hrest
      exact ⟨htask', houtcome'.trans houtcome⟩
    · exact absurd (eq_abandon hknows ht hclear hunanswered hgone) hstays

/-- **A cache in use stays in use until somebody clears it.** -/
theorem started_step (hopen : ∀ i order, e ≠ .call i (.clear order))
    (hphase : w.cache.phase = .started) : (w.step b e).cache.phase = .started := by
  have hmoves := phase_step b w e
  rw [hphase] at hmoves
  generalize (w.step b e).cache.phase = p at hmoves ⊢
  cases hmoves with
  | kept => rfl
  | closed id order he => exact absurd he (hopen id order)

theorem started_run {events : List Event} (h : Unhindered id events)
    (hphase : w.cache.phase = .started) : (w.run b events).cache.phase = .started := by
  induction events generalizing w with
  | nil => exact hphase
  | cons e events ih =>
    obtain ⟨hopen, -⟩ := h e List.mem_cons_self
    exact ih (fun e' he' ↦ h e' (List.mem_cons_of_mem e he')) (started_step hopen hphase)

end World

/-! ### Sets that stay -/

namespace Cache

/-- Between `c` and `d` the schema set of the store `n` stays if the record does. -/
def Retains (n : String) (c d : Cache) : Prop :=
  ∃ new, d.journal = new ++ c.journal ∧
    (c.Named → d.Named ∧ (c.Stocks n → (∀ r, r.name = n → .removed r ∉ new) → d.Stocks n))

theorem Retains.trans {c d e : Cache} (h₁ : Retains n c d) (h₂ : Retains n d e) :
    Retains n c e := by
  obtain ⟨new₁, hd, h₁⟩ := h₁
  obtain ⟨new₂, he, h₂⟩ := h₂
  refine ⟨new₂ ++ new₁, by rw [he, hd, List.append_assoc], fun hnamed ↦ ?_⟩
  obtain ⟨hnamed₁, hstocks₁⟩ := h₁ hnamed
  obtain ⟨hnamed₂, hstocks₂⟩ := h₂ hnamed₁
  refine ⟨hnamed₂, fun hc hstays ↦ hstocks₂ (hstocks₁ hc ?_) ?_⟩
  · exact fun r hr hmem ↦ hstays r hr (List.mem_append_right new₂ hmem)
  · exact fun r hr hmem ↦ hstays r hr (List.mem_append_left new₁ hmem)

/-- It is enough that what leaves the record leaves the set. -/
theorem Chronicled.retains {c d : Cache} (h : Chronicled c d)
    (hset : (d.shelf n).store ≠ none → (c.shelf n).schemas ≠ none → (d.shelf n).schemas ≠ none) :
    Retains n c d := by
  obtain ⟨new, hjournal, h⟩ := h
  refine ⟨new, hjournal, fun hnamed ↦ ?_⟩
  obtain ⟨hnamed', hstores, -⟩ := h hnamed
  refine ⟨hnamed', fun hc hstays ↦ ?_⟩
  have hin : d.stores.get? n ≠ none := by
    rw [hstores]
    exact replayed_ne_none hc.1 hstays
  exact ⟨hin, hset hin hc.2⟩

end Cache

theorem Piece.retains {c d : Cache} (h : Piece b w e c d) : Cache.Retains n c d := by
  refine h.chronicled.retains fun hin hset ↦ ?_
  have hkept : d.shelf n = c.shelf n → (d.shelf n).schemas ≠ none := fun hsame ↦ by rwa [hsame]
  have hbare : d.shelf n ≠ .bare := fun hbare ↦ hin (congrArg Shelf.store hbare)
  cases h with
  | @install _ _ mode _ p s =>
    rcases Cache.shelf_install (b := b) mode p s w.cache n with hsame | hgone | ⟨-, hput⟩
    · exact hkept hsame
    · exact absurd hgone hbare
    · rwa [hput]
  | @file _ _ source name data =>
    rcases Cache.shelf_file name data c n with hsame | ⟨-, -, hput⟩
    · exact hkept hsame
    · rw [hput]
      exact Option.some_ne_none data
  | refreshed => exact hkept (Cache.shelf_reportRefreshed _ _ n)
  | remove _ name =>
    rcases Cache.cascading_thinned.remove (b := b) name c n with hsame | hgone
    · exact hkept hsame
    · exact absurd hgone hbare
  | wipe => exact absurd rfl hin
  | register _ l => exact hkept (Cache.shelf_register c l n)
  | unregister _ l => exact hkept (Cache.shelf_unregister c l n)
  | ask | start | close | clock => exact hset

theorem run_retains (b : Behaviour) (w : World) (events : List Event) (n : String) :
    Cache.Retains n w.cache (w.run b events).cache :=
  World.run_rel (fun _ ↦ ⟨[], rfl, fun hnamed ↦ ⟨hnamed, fun hc _ ↦ hc⟩⟩) .trans Piece.retains
    w events

/-- **Reading through.** In every reachable world:

* While a set is there for a store, and until the store leaves the cache, no question about the
  schemas of the store starts a fetch, whatever else happens.
* A question that needs the set of a store that is not subscribed is refused at once, and does
  nothing else. One whose set is there is answered from it at once, and does nothing else.
* For any other question one fetch is made. Whatever happens before its answer comes, except that
  the cache is cleared or the caller gives up, the question waits for it and does nothing else, and
  it returns with the answer: an error is passed on; a set for a store that is not subscribed any
  more is thrown away; any other set is filed, and the question is answered from it. -/
theorem readThrough_of_run (b : Behaviour) (tracks : Bool) (clock : Nat) (before : List Event)
    (id : CallId) (n : String) (q : SchemaQuery) :
    let w := (World.new tracks clock).run b before
    let v := w.step b (.call id (.schema n q))
    let record := w.cache.along n q
    (w.cache.schemas.get? n ≠ none → ∀ after since,
      (w.run b after).cache.journal = since ++ w.cache.journal →
      (∀ r, r.name = n → .removed r ∉ since) →
        (w.run b after).cache.schemas.get? n ≠ none ∧
        ∀ id' q', ((w.run b after).step b (.call id' (.schema n q'))).cache =
          (w.run b after).cache) ∧
    (w.knows id = false → w.cache.phase = .started → w.cache.Reads n q →
      (w.cache.stores.get? n = none → v = w.finish id (.error (.noSuchStore n none))) ∧
      (∀ d, w.cache.schemas.get? n = some d →
        v = w.finish id ((q.answer n record d).map .schema)) ∧
      (w.cache.stores.get? n ≠ none → w.cache.schemas.get? n = none →
        v.cache = w.cache.ask (.schemas n) ∧
        ∀ between source, World.Unhindered id between →
          let u := v.run b between
          let u' := u.step b (.answer id source)
          u.task? id = some (.schema n q record) ∧ u.outcomes.lookup id = none ∧
          (∀ e, source.schemas n = .error e → u' = u.finish id (.error (.ofFetch n e))) ∧
          (∀ d, source.schemas n = .ok d →
            (u.cache.stores.get? n = none → u' = u.finish id (.error (.noSuchStore n none))) ∧
            (u.cache.stores.get? n ≠ none →
              u' = (u.withCache (u.cache.withSchemas n d)).finish id
                ((q.answer n record d).map .schema))))) := by
  intro w v record
  refine ⟨fun hset after since hjournal hstays ↦ ?_, fun hnew hphase hreads ↦ ?_⟩
  · obtain ⟨new, hnew, hretains⟩ := run_retains b w after n
    obtain rfl : since = new := List.append_cancel_right (hjournal.symm.trans hnew)
    -- Only subscribed stores have sets.
    have hin : w.cache.stores.get? n ≠ none := fun hout ↦
      hset (congrArg Shelf.schemas (shelf_of_run hout))
    have hstocks := (hretains (named_of_run b tracks clock before)).2 ⟨hin, hset⟩ hstays
    exact ⟨hstocks.2, fun _ _ ↦ World.cache_step_schema hstocks⟩
  · have hbare : w.cache.stores.get? n = none → w.cache.schemas.get? n = none :=
      fun hout ↦ congrArg Shelf.schemas (shelf_of_run hout)
    have hasking : World.Asking w id n q v := World.asking hnew hbare
    have hknows : v.knows id := World.knows_step_call hnew
    clear_value v
    cases hasking with
    | unusable hclosed => exact absurd hphase hclosed
    | absent hs hd =>
      refine ⟨fun _ ↦ rfl, fun d hd' ↦ ?_, fun hin ↦ absurd hs hin⟩
      cases hd.symm.trans hd'
    | undesignated hr hq hnone => exact absurd hnone (hreads _ hr hq)
    | found hr hd =>
      refine ⟨fun hout ↦ ?_, fun d' hd' ↦ ?_, fun _ hnone ↦ ?_⟩
      · cases hout.symm.trans hr
      · cases hd.symm.trans hd'
        rfl
      · cases hnone.symm.trans hd
    | missing hr hd =>
      refine ⟨fun hout ↦ ?_, fun d' hd' ↦ ?_, fun _ _ ↦ ⟨rfl, fun between source hunhindered ↦ ?_⟩⟩
      · cases hout.symm.trans hr
      · cases hd.symm.trans hd'
      generalize hv : (w.withCache (w.cache.ask (.schemas n))).wait id
        (.schema n q (w.cache.along n q)) = v at hknows ⊢
      have ht : v.task? id = some (.schema n q (w.cache.along n q)) :=
        hv ▸ (World.task?_wait _ id _ id).trans (if_pos rfl)
      have hvoutcome : v.outcomes.lookup id = none := hv ▸ World.lookup_of_new (w := w) hnew
      have hvphase : v.cache.phase = .started := hv ▸ hphase
      obtain ⟨htask, houtcome⟩ := World.task?_run_of_unhindered (b := b) hknows ht nofun hunhindered
      have hstarted := World.started_run (b := b) hunhindered hvphase
      exact ⟨htask, houtcome.trans hvoutcome, (World.answering htask source).eq_of_started hstarted⟩

/-- A source with two schemas, whose record designates the one with an id. -/
def Source.designating (i : Int32) : Source where
  placement _ := .ok (some (.new "orders" "east"))
  record _ _ := .ok { Store.new "orders" with supersetSchema := i }
  schemas name := .ok (((SchemaSet.new name).add ⟨1, "int"⟩).add ⟨2, "long"⟩)

/-- A subscription in progress: the record has come, and its schemas have been asked for. -/
def ordersUnread : List Event :=
  [.call 0 .start, .call 1 (.subscribe "orders"), .answer 1 (.designating 1),
    .answer 1 (.designating 1)]

/-- The store is unsubscribed, and another call subscribes it. -/
def ordersResubscribed : List Event :=
  [.call 3 (.unsubscribe "orders"), .call 4 (.subscribe "orders"), .answer 4 (.designating 2),
    .answer 4 (.designating 2)]

/-- While a question waits, its store leaves and comes back. The set is filed for the store that is
there then. Where a set is there already, nobody fetches it, a refresh in progress or not. -/
theorem readThrough_of_resubscribed :
    let w := (World.new true 0).run .silent ordersUnread
    let v := w.step .silent (.call 2 (.schema "orders" .latest))
    let u := v.run .silent ordersResubscribed
    let z := (World.new true 0).run .silent ordersSubscribed
    let z' := z.run .silent [.call 3 (.refresh "orders")]
    w.knows 2 = false ∧ w.cache.phase = .started ∧ w.cache.Reads "orders" .latest ∧
      World.Unhindered 2 ordersResubscribed ∧ u.outcomes.lookup 2 = none ∧
      (u.step .silent (.answer 2 (.designating 2))).outcomes.lookup 2 =
        some (.ok (.schema (.schema ⟨1, "int"⟩))) ∧
      z.cache.schemas.get? "orders" ≠ none ∧
      ∀ id q, (z'.step .silent (.call id (.schema "orders" q))).cache = z'.cache := by
  have hreads : ((World.new true 0).run .silent ordersUnread).cache.Reads "orders" .latest :=
    fun _ _ hsuperset ↦ by cases hsuperset
  have hunhindered : World.Unhindered 2 ordersResubscribed := by
    intro e he
    simp only [ordersResubscribed, List.mem_cons, List.not_mem_nil, or_false] at he
    rcases he with rfl | rfl | rfl | rfl <;> exact ⟨nofun, nofun, nofun⟩
  obtain ⟨-, hread⟩ := readThrough_of_run .silent true 0 ordersUnread 2 "orders" .latest
  obtain ⟨-, -, hmissing⟩ := hread (by decide) (by decide) hreads
  obtain ⟨-, hanswered⟩ := hmissing (by decide) (by decide)
  obtain ⟨-, hwaits, -, hfiled⟩ := hanswered ordersResubscribed (.designating 2) hunhindered
  have hreturned := (hfiled _ rfl).2 (by decide)
  obtain ⟨hkept, -⟩ := readThrough_of_run .silent true 0 ordersSubscribed 4 "orders" .key
  obtain ⟨-, hunasked⟩ := hkept (by decide) [.call 3 (.refresh "orders")]
    [.asked (.placement "orders")] rfl (by simp)
  refine ⟨by decide, by decide, hreads, hunhindered, hwaits, ?_, by decide, hunasked⟩
  refine (congrArg (·.outcomes.lookup 2) hreturned).trans ?_
  decide

end StoreCache
