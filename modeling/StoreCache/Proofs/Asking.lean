import StoreCache.Proofs.Interference
import StoreCache.Proofs.Question
import StoreCache.Proofs.ReadThrough
import StoreCache.Proofs.Refusal
import StoreCache.Proofs.Subscribe

/-!
# What a call asks

A fetch is written into the journal when it is started, so the questions that a call asks are those
that its own events write (`World.inquiries`): that it is made, and that it is answered.

A subscription whose store nobody else touches, and whose answers all come from one source, asks
what the source leads it to, and ends as the source's answers mean (`subscription_of_source`). The
source alone says which questions these are (`Source.questions`): each is asked if the answers
before it will do. Anything may happen to other stores meanwhile.
-/

namespace StoreCache

variable {b : Behaviour} {v w : World} {id : CallId} {n : String} {events : List Event} {e : Event}
  {source : Source} {stage : Stage} {asked : List Question}

/-! ### The questions in the journal -/

/-- The question that an entry says to have been asked. -/
def Entry.question? : Entry → Option Question
  | .asked q => some q
  | _ => none

namespace Cache

variable {c d : Cache}

/-- The questions asked between the caches `c` and `d`, oldest first. -/
def askedSince (c d : Cache) : List Question :=
  ((d.journal.take (d.journal.length - c.journal.length)).filterMap Entry.question?).reverse

theorem askedSince_of_append {new : List Entry} (h : d.journal = new ++ c.journal) :
    c.askedSince d = (new.filterMap Entry.question?).reverse := by
  have hlength : (new ++ c.journal).length - c.journal.length = new.length := by simp
  rw [askedSince, h, hlength, List.take_left]

theorem askedSince_of_wrote (h : Wrote (fun entry ↦ entry.question? = none) c d) :
    c.askedSince d = [] := by
  obtain ⟨new, hjournal, hnew⟩ := h
  rw [askedSince_of_append hjournal, List.filterMap_eq_nil_iff.2 hnew, List.reverse_nil]

theorem askedSince_self (c : Cache) : c.askedSince c = [] := askedSince_of_wrote (.of_eq rfl)

theorem askedSince_ask (h : Wrote (fun entry ↦ entry.question? = none) c d) (q : Question) :
    c.askedSince (d.ask q) = [q] := by
  obtain ⟨new, hjournal, hnew⟩ := h
  have hasked : (d.ask q).journal = (.asked q :: new) ++ c.journal := congrArg (_ :: ·) hjournal
  have hquestion : Entry.question? (.asked q) = some q := rfl
  rw [askedSince_of_append hasked, List.filterMap_cons_some hquestion,
    List.filterMap_eq_nil_iff.2 hnew, List.reverse_singleton]

theorem question?_of_cascade {entry : Entry} (h : entry.OfCascade) : entry.question? = none := by
  cases entry with
  | asked => exact h.elim
  | _ => rfl

theorem wrote_no_question_install (mode : Install) (p : Placement) (s : Store) (c : Cache) :
    Wrote (fun entry ↦ entry.question? = none) c (c.install b mode p s).2 :=
  wrote_install (fun _ ↦ question?_of_cascade) (fun _ ↦ rfl) (fun _ _ ↦ rfl) mode c

theorem wrote_no_question_refreshed (name : String) (data : SchemaSet) (c : Cache) :
    Wrote (fun entry ↦ entry.question? = none) c ((c.file name data).2.reportRefreshed name) := by
  rw [reportRefreshed_eq]
  have hf := filing name data c
  generalize c.file name data = r at hf ⊢
  cases hf with
  | refused | absent => exact .of_cons rfl rfl
  | filed => exact ⟨[_, _], rfl, by simp [Entry.question?]⟩

end Cache

/-- The questions that the call `id` asks in a run, in order: those that its own events write into
the journal. -/
def World.inquiries (b : Behaviour) (id : CallId) (w : World) : List Event → List Question
  | [] => []
  | e :: events =>
    (if e.actor? = some (.call id) then w.cache.askedSince (w.step b e).cache else []) ++
      inquiries b id (w.step b e) events

theorem World.inquiries_concat (b : Behaviour) (id : CallId) (w : World) (events : List Event)
    (e : Event) : w.inquiries b id (events ++ [e]) = w.inquiries b id events ++
      if e.actor? = some (.call id) then
        (w.run b events).cache.askedSince (w.run b (events ++ [e])).cache
      else [] := by
  induction events generalizing w with
  | nil => simp [inquiries, run_cons]
  | cons e' events ih =>
    rw [List.cons_append, inquiries, ih, inquiries, List.append_assoc]
    rfl

/-! ### What a source leads to -/

namespace Source

/-- The questions about the store `n` that a refresh comes to ask if this source answers it. -/
def questions (source : Source) (n : String) : List Question :=
  .placement n ::
    match source.placement n with
    | .ok (some p) =>
      if p.deleting then []
      else .record n p.cluster ::
        match source.record n p.cluster with
        | .ok s => if s.name = n then [.schemas n] else []
        | .error _ => []
    | _ => []

/-- The answers of the source lead a refresh of the store `n` to a stage, with these questions. -/
inductive Leads (source : Source) (n : String) : Stage → List Question → Prop
  | placement : Leads source n .placement [.placement n]
  | record {p : Placement} (hp : source.placement n = .ok (some p)) (hstays : p.deleting = false) :
    Leads source n (.record p) [.placement n, .record n p.cluster]
  | schemas {p : Placement} {s : Store} (hp : source.placement n = .ok (some p))
    (hstays : p.deleting = false) (hs : source.record n p.cluster = .ok s) (hname : s.name = n) :
    Leads source n (.schemas s.completed) [.placement n, .record n p.cluster, .schemas n]

namespace Leads

/-- A placement leads on to the record on its cluster. -/
theorem of_placed {p : Placement} (h : source.Leads n .placement asked)
    (hp : source.placement n = .ok (some p)) (hstays : p.deleting = false) :
    source.Leads n (.record p) (asked ++ [.record n p.cluster]) := by
  cases h
  exact .record hp hstays

/-- A record leads on to the schemas. -/
theorem of_installed {p : Placement} {s : Store} (h : source.Leads n (.record p) asked)
    (hs : source.record n p.cluster = .ok s) (hname : s.name = n) :
    source.Leads n (.schemas s.completed) (asked ++ [.schemas n]) := by
  cases h with
  | record hp hstays => exact .schemas hp hstays hs hname

/-- Where the source refuses, no more is asked, and the refusal is the verdict. -/
theorem of_refusal (h : source.Leads n stage asked) {err : CacheError}
    (hrefusal : source.refusal? n stage = some err) :
    asked = source.questions n ∧ (source.about n).verdict n = .error err := by
  cases h with
  | placement =>
    have hdelivered := delivered_of_refusal hrefusal
    refine ⟨?_, by simp only [Answers.verdict, hdelivered]⟩
    cases refusing hrefusal with
    | unplaced hp | nowhere hp => simp only [questions, hp]
    | deleting hp hdeleting => simp only [questions, hp, hdeleting, if_true]
  | record hp hstays =>
    have hdelivered := delivered_of_refused_record hp hstays hrefusal
    refine ⟨?_, by simp only [Answers.verdict, hdelivered]⟩
    cases refusing hrefusal with
    | unrecorded hs => simp only [questions, hp, hstays, hs, Bool.false_eq_true, if_false]
    | misnamed hs hname =>
      simp only [questions, hp, hstays, hs, hname, Bool.false_eq_true, if_false]
  | schemas hp hstays hs hname =>
    have hdelivered := delivered_of_record hp hstays hs hname
    obtain ⟨e, hd, rfl⟩ := schemas_of_refusal hrefusal
    have hschemas : (source.about n).schemas = .error e := hd
    exact ⟨by simp only [questions, hp, hstays, hs, hname, Bool.false_eq_true, if_false, if_true],
      by simp only [Answers.verdict, hdelivered, hschemas]⟩

/-- Where the schemas have come, no more is asked, and the record is the verdict. -/
theorem of_done {s : Store} {d : SchemaSet} (h : source.Leads n (.schemas s) asked)
    (hd : source.schemas n = .ok d) :
    asked = source.questions n ∧ (source.about n).verdict n = .ok s := by
  cases h with
  | schemas hp hstays hs hname =>
    have hdelivered := delivered_of_record hp hstays hs hname
    have hschemas : (source.about n).schemas = .ok d := hd
    exact ⟨by simp only [questions, hp, hstays, hs, hname, Bool.false_eq_true, if_false, if_true],
      by simp only [Answers.verdict, hdelivered, hschemas]⟩

end Leads

end Source

/-! ### One answer -/

/-- What comes of an answer to a subscription that has come to a stage, after these questions: the
next question to which the source leads, or the end, as the source's answers mean. -/
inductive Led (source : Source) (n : String) (c : Cache) (stage : Stage) (asked : List Question) :
    Progress × Cache → Prop
  | waits {stage' : Stage} {d : Cache} (hleads : source.Leads n stage' (asked ++ c.askedSince d))
    (hstore : d.stores.get? n = none ↔ ∀ s, stage' ≠ .schemas s)
    (hrank : stage'.rank = stage.rank + 1) : Led source n c stage asked (.waiting stage', d)
  | ended {result : Except CacheError (Option Store)} {d : Cache}
    (hquestions : asked = source.questions n) (hnothing : c.askedSince d = [])
    (hresult : result = ((source.about n).verdict n).map some) :
    Led source n c stage asked (.ended result, d)

/-- **An answer of the source leads a subscription on**, if the store is in the cache exactly when
its record has come, and nobody takes it out as it is installed. -/
theorem Source.Leads.led {c : Cache} (h : source.Leads n stage asked) (hb : b.Passive c.journal)
    (hphase : c.phase = .started)
    (hstore : c.stores.get? n = none ↔ ∀ s, stage ≠ .schemas s) :
    Led source n c stage asked (Refresh.resume b .upsert n stage source c) := by
  have hresumed := Refresh.resumed b .upsert n stage source c
  generalize Refresh.resume b .upsert n stage source c = next at hresumed ⊢
  cases hresumed with
  | refused hrefusal =>
    obtain ⟨hquestions, hverdict⟩ := h.of_refusal hrefusal
    exact .ended hquestions (Cache.askedSince_self c) (by rw [hverdict]; rfl)
  | unusable husable =>
    rw [Phase.usable_eq_ok_iff.2 hphase] at husable
    cases husable
  | @placed p hp hstays =>
    refine .waits ?_ (hstore.trans (by simp)) rfl
    rw [Cache.askedSince_ask (.of_eq rfl)]
    exact h.of_placed hp hstays
  | passedOver hmode => cases hmode
  | @installed p s t d hs hname hinstall hin =>
    have hbare : c.stores.get? s.name = none := by
      rw [hname]
      exact hstore.2 nofun
    obtain ⟨rfl, -⟩ := Cache.contents_of_install hb hbare hinstall
    have hd : d = (c.install b .upsert p s).2 := by rw [hinstall]
    refine .waits ?_ ⟨fun hnone ↦ absurd hnone hin, fun h ↦ absurd rfl (h _)⟩ rfl
    rw [hd, Cache.askedSince_ask (Cache.wrote_no_question_install _ _ _ _)]
    exact h.of_installed hs hname
  | @lost p s t d hs hname hinstall hout =>
    have hbare : c.stores.get? s.name = none := by
      rw [hname]
      exact hstore.2 nofun
    have hput := congrArg Contents.stores (Cache.contents_of_install hb hbare hinstall).2
    replace hput : d.stores = c.stores.insert s.name s.completed := hput
    rw [hput, hname, Dict.get?_insert, if_pos rfl] at hout
    cases hout
  | absent hout => exact absurd rfl (hstore.1 hout _)
  | @done s data hdata =>
    obtain ⟨hquestions, hverdict⟩ := h.of_done hdata
    exact .ended hquestions (Cache.askedSince_of_wrote (Cache.wrote_no_question_refreshed _ _ _))
      (by rw [hverdict]; rfl)

/-! ### A subscription left to one source -/

/-- Every answer to the call `id` is from the source, the call is not given up and the cache not
cleared, and nobody else touches what the cache holds about the store `n`. -/
structure LeftTo (source : Source) (b : Behaviour) (v : World) (id : CallId) (n : String)
    (events : List Event) : Prop where
  answers : ∀ s, .answer id s ∈ events → s = source
  keeps : .abandon id ∉ events
  inUse : ∀ i order, .call i (.clear order) ∉ events
  untouched : Untouched b v id n events

theorem LeftTo.of_concat (h : LeftTo source b v id n (events ++ [e])) :
    LeftTo source b v id n events where
  answers s hs := h.answers s (List.mem_append_left _ hs)
  keeps hmem := h.keeps (List.mem_append_left _ hmem)
  inUse i order hmem := h.inUse i order (List.mem_append_left _ hmem)
  untouched earlier e' hp := h.untouched earlier e' (hp.trans (List.prefix_append events [e]))

/-- Where a subscription has come to that is left to a source: it waits at a stage to which the
source has led it, or it has returned as the source's answers mean. -/
inductive Inquiring (source : Source) (b : Behaviour) (v : World) (id : CallId) (n : String)
    (events : List Event) : Prop
  | waits {stage : Stage} (ht : (v.run b events).task? id = some (.refresh n stage false))
    (hleads : source.Leads n stage (.placement n :: v.inquiries b id events))
    (hstore : (v.run b events).cache.stores.get? n = none ↔ ∀ s, stage ≠ .schemas s)
    (hcount : answersTo id events ≤ stage.rank)
  | returned (ht : (v.run b events).task? id = none)
    (ho : (v.run b events).outcomes.lookup id =
      some (World.reply n false (((source.about n).verdict n).map some)))
    (hasked : .placement n :: v.inquiries b id events = source.questions n)

/-- An event of a call's own does nothing, if it is neither an answer nor that the call is given up
or goes on with clearing. -/
theorem World.step_of_own (hknows : w.knows id) (hclear : ∀ order, w.task? id ≠ some (.clear order))
    (hown : e.actor? = some (.call id)) (hanswer : ∀ s, e ≠ .answer id s)
    (hkeeps : e ≠ .abandon id) :
    w.step b e = w := by
  cases e with
  | call i op =>
    cases hown
    simp only [World.step, hknows, if_true]
  | answer i s =>
    cases hown
    exact absurd rfl (hanswer s)
  | abandon i =>
    cases hown
    exact absurd rfl hkeeps
  | proceed i =>
    cases hown
    simp only [World.step]
    split
    · rename_i order ht _
      exact absurd ht (hclear order)
    · rfl
  | graceOver i =>
    cases hown
    simp only [World.step]
  | tick | backgroundAnswer | backgroundStop | clock => cases hown

/-- So it asks nothing. -/
theorem World.inquiries_of_other (hknows : (v.run b events).knows id)
    (hclear : ∀ order, (v.run b events).task? id ≠ some (.clear order))
    (hanswer : ∀ s, e ≠ .answer id s) (hkeeps : e ≠ .abandon id) :
    v.inquiries b id (events ++ [e]) = v.inquiries b id events := by
  rw [inquiries_concat]
  split
  · rename_i hown
    rw [run_concat, step_of_own hknows hclear hown hanswer hkeeps, Cache.askedSince_self,
      List.append_nil]
  · exact List.append_nil _

namespace Inquiring

/-- Whatever else happens, the call waits on, or has returned. -/
theorem others (h : Inquiring source b v id n events) (hknows : (v.run b events).knows id)
    (hleft : LeftTo source b v id n (events ++ [e])) (he : ∀ s, e ≠ .answer id s) :
    Inquiring source b v id n (events ++ [e]) := by
  have hkeeps : e ≠ .abandon id := fun heq ↦
    hleft.keeps (List.mem_append_right events (by rw [heq]; exact List.mem_cons_self))
  have hstore : (v.run b (events ++ [e])).cache.stores.get? n =
      (v.run b events).cache.stores.get? n :=
    congrArg Shelf.store (hleft.untouched events e List.prefix_rfl he)
  cases h with
  | @waits stage ht hleads hbare hcount =>
    have hnever : ∀ order, (v.run b events).task? id ≠ some (.clear order) := by simp [ht]
    have hclear : ∀ order, Task.refresh n stage false ≠ .clear order := nofun
    have htask : (v.run b (events ++ [e])).task? id = some (.refresh n stage false) := by
      rw [World.run_concat]
      refine (World.step_of_unanswered hknows ht hclear he).1.resolve_right fun hgone ↦ ?_
      exact hkeeps (World.eq_abandon hknows ht hclear he hgone)
    refine .waits htask ?_ (by rwa [hstore]) (by rwa [answersTo_concat_of_ne he])
    rwa [World.inquiries_of_other hknows hnever he hkeeps]
  | returned ht ho hasked =>
    have hnever : ∀ order, (v.run b events).task? id ≠ some (.clear order) := by simp [ht]
    obtain ⟨ht', ho'⟩ := World.step_of_task?_none (b := b) hknows ht e
    rw [← World.run_concat] at ht' ho'
    exact .returned ht' (ho'.trans ho) (by rwa [World.inquiries_of_other hknows hnever he hkeeps])

/-- What the call asks as it is answered. -/
theorem inquiries_answer (b : Behaviour) (v : World) (id : CallId) (events : List Event)
    (source : Source) : v.inquiries b id (events ++ [.answer id source]) =
      v.inquiries b id events ++
        (v.run b events).cache.askedSince (v.run b (events ++ [.answer id source])).cache := by
  rw [World.inquiries_concat, if_pos]
  rfl

/-- An answer of the source takes the call to its next question or to its end. -/
theorem answered (h : Inquiring source b v id n events)
    (hb : b.Passive (v.run b events).cache.journal)
    (hphase : (v.run b events).cache.phase = .started) :
    Inquiring source b v id n (events ++ [.answer id source]) := by
  cases h with
  | returned ht ho hasked =>
    have hrun : v.run b (events ++ [.answer id source]) = v.run b events := by
      rw [World.run_concat, World.step_answer_of_none ht]
    refine .returned (by rwa [hrun]) (by rwa [hrun]) ?_
    rw [inquiries_answer, hrun, Cache.askedSince_self, List.append_nil, hasked]
  | @waits stage ht hleads hstore hcount =>
    have hrun := World.run_answer source ht
    have hasked := inquiries_answer b v id events source
    have hled := hleads.led hb hphase hstore
    generalize Refresh.resume b .upsert n stage source (v.run b events).cache = next at hrun hled
    cases hled with
    | @waits stage' d hleads' hstore' hrank =>
      have htask : (v.run b (events ++ [.answer id source])).task? id =
          some (.refresh n stage' false) := by
        rw [hrun]
        exact (World.task?_wait _ id _ id).trans (if_pos rfl)
      refine .waits htask ?_ ?_ ?_
      · rw [hasked, hrun]
        exact hleads'
      · rw [hrun]
        exact hstore'
      · rw [answersTo_concat_answer]
        omega
    | @ended result d hquestions hnothing hresult =>
      rw [World.continueRefresh_ended, hresult] at hrun
      refine .returned ?_ ?_ ?_
      · rw [hrun]
        exact (World.task?_finish _ id _ id).trans (if_pos rfl)
      · rw [hrun]
        exact List.lookup_cons_self
      · rw [hasked, hrun]
        exact (congrArg (_ :: ·) ((congrArg (_ ++ ·) hnothing).trans (List.append_nil _))).trans
          hquestions

/-- The call stays on the way on which the source leads it, whatever happens meanwhile. -/
theorem run (h : Inquiring source b v id n []) (hknows : v.knows id)
    (hphase : v.cache.phase = .started) (hb : b.Passive v.cache.journal)
    (hleft : LeftTo source b v id n events) :
    (v.run b events).cache.phase = .started ∧ Inquiring source b v id n events := by
  induction events using List.reverseRecOn with
  | nil => exact ⟨hphase, h⟩
  | append_singleton events e ih =>
    obtain ⟨hstill, hbefore⟩ := ih hleft.of_concat
    have hlast : e ∈ events ++ [e] := List.mem_append_right events List.mem_cons_self
    constructor
    · rw [World.run_concat]
      exact World.started_step (fun i order he ↦ hleft.inUse i order (he ▸ hlast)) hstill
    · by_cases he : ∃ s, e = .answer id s
      · obtain ⟨s, rfl⟩ := he
        obtain rfl := hleft.answers s hlast
        exact hbefore.answered (hb.mono (World.run_wrote b v events).suffix) hstill
      · exact hbefore.others (World.run_knows hknows events) hleft fun s hs ↦ he ⟨s, hs⟩

/-- Three answers are enough. -/
theorem returned_of_three (h : Inquiring source b v id n events)
    (hthree : 3 ≤ answersTo id events) :
    (v.run b events).task? id = none := by
  cases h with
  | @waits stage ht hleads hstore hcount =>
    have := stage.rank_le
    omega
  | returned ht => exact ht

end Inquiring

/-- The questions to which a source leads are the first of those it leads to in the end. -/
theorem Source.Leads.prefix_questions (h : source.Leads n stage asked) :
    asked <+: source.questions n := by
  unfold Source.questions
  cases h with
  | placement => simp
  | record hp hstays => simp [hp, hstays]
  | schemas hp hstays hs hname => simp [hp, hstays, hs, hname]

theorem inquiring_nil (hnew : w.knows id = false) (hphase : w.cache.phase = .started)
    (hn : w.cache.stores.get? n = none) :
    Inquiring source b (w.step b (.call id (.subscribe n))) id n [] := by
  rw [World.step_subscribe hnew hphase hn]
  have ht := (World.task?_wait (w.withCache (Refresh.start n w.cache)) id
    (.refresh n .placement false) id).trans (if_pos rfl)
  exact .waits ht .placement ⟨fun _ ↦ nofun, fun _ ↦ hn⟩ (Nat.zero_le _)

/-- **What a subscription asks, and how it ends, if it is left to one source.** It asks the
questions to which the source leads, three answers are enough for it to return, and its outcome is
what the source's answers mean. -/
theorem subscription_of_source (hnew : w.knows id = false) (hphase : w.cache.phase = .started)
    (hn : w.cache.stores.get? n = none) (hb : b.Passive w.cache.journal)
    (hleft : LeftTo source b (w.step b (.call id (.subscribe n))) id n events) :
    let called := Event.call id (.subscribe n)
    w.inquiries b id (called :: events) <+: source.questions n ∧
    (3 ≤ answersTo id events → (w.run b (called :: events)).task? id = none) ∧
    ((w.run b (called :: events)).task? id = none →
      w.inquiries b id (called :: events) = source.questions n ∧
      (w.run b (called :: events)).outcomes.lookup id =
        some (World.reply n false (((source.about n).verdict n).map some))) := by
  intro called
  have hstep := World.step_subscribe (b := b) hnew hphase hn
  have hknows : (w.step b called).knows id := by
    rw [hstep]
    simp [World.knows, World.wait]
  have hstarted : (w.step b called).cache.phase = .started := by
    rw [hstep]
    exact hphase
  have hasked : w.inquiries b id (called :: events) =
      .placement n :: (w.step b called).inquiries b id events := by
    have hown : called.actor? = some (.call id) := rfl
    rw [World.inquiries, if_pos hown, hstep]
    exact congrArg (· ++ _) (Cache.askedSince_ask (.of_eq rfl) (.placement n))
  have hpassive : b.Passive (w.step b called).cache.journal :=
    hb.mono (World.run_wrote b w [called]).suffix
  obtain ⟨-, h⟩ := (inquiring_nil hnew hphase hn).run hknows hstarted hpassive hleft
  rw [hasked, World.run_cons]
  refine ⟨?_, h.returned_of_three, fun hnone ↦ ?_⟩
  · cases h with
    | waits _ hleads => exact hleads.prefix_questions
    | returned _ _ hquestions => exact hquestions ▸ List.prefix_rfl
  · cases h with
    | waits ht =>
      rw [ht] at hnone
      cases hnone
    | returned _ ho hquestions => exact ⟨hquestions, ho⟩

end StoreCache
