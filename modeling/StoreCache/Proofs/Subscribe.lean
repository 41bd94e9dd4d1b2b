import StoreCache.Proofs.Passive
import StoreCache.Proofs.Shape

/-!
# Failed subscriptions

A subscription asks three questions and writes after the second: the record and its placement go in
before the schemas are asked for. **So a subscription that fails leaves no trace if it fails at the
placement or at the record, and leaves the record and the placement if it fails at the schemas.**
The caller is refused in either case, and the store stays subscribed in the second.

Both halves are proved for runs in which anything else may happen meanwhile, as long as it leaves
alone what the cache holds about the store (`Untouched`). What the call itself does is then said of
its own steps, the answers it gets: they change nothing (`Kept`), or one of them puts the record in
and the others change nothing (`Placed`). If nobody else changes the cache either (`Undisturbed`),
it is at the end what it was before the call, or that with the record put in.

The listeners are passive from the call on. An active one may unsubscribe the store from inside its
installation.
-/

namespace StoreCache

variable {b : Behaviour} {v w : World} {id : CallId} {n : String} {events : List Event} {e : Event}

/-! ### The two halves of a refresh -/

/-- How a refresh goes on before its record is in. -/
inductive Refresh.Begun (n : String) (source : Source) (c : Cache) : Progress × Cache → Prop
  | refused {err : CacheError} {c' : Cache} (hkept : c'.contents = c.contents) :
    Begun n source c (Refresh.refuse err, c')
  | asks {p : Placement} {c' : Cache} (hkept : c'.contents = c.contents) :
    Begun n source c (.waiting (.record p), c')
  | installs {p : Placement} {s : Store} {c' : Cache} (hs : source.record n p.cluster = .ok s)
    (hname : s.name = n) (hput : c'.contents = c.contents.put p s.completed) :
    Begun n source c (.waiting (.schemas s.completed), c')

theorem Refresh.begun {stage : Stage} (hstage : ∀ s, stage ≠ .schemas s) (source : Source)
    {c : Cache} (hb : b.Passive c.journal) (hn : c.stores.get? n = none) :
    Begun n source c (Refresh.resume b .upsert n stage source c) := by
  have hresumed := Refresh.resumed b .upsert n stage source c
  generalize Refresh.resume b .upsert n stage source c = next at hresumed ⊢
  cases hresumed with
  | refused => exact .refused rfl
  | unusable => exact .refused rfl
  | placed => exact .asks rfl
  | passedOver hmode => cases hmode
  | installed hs hname hinstall =>
    obtain ⟨rfl, hput⟩ := Cache.contents_of_install hb (hname ▸ hn) hinstall
    exact .installs hs hname hput
  | @lost p s t d hs hname hinstall hout =>
    obtain ⟨rfl, hput⟩ := Cache.contents_of_install hb (hname ▸ hn) hinstall
    have hstores : d.stores = c.stores.insert s.name s.completed := congrArg Contents.stores hput
    rw [hstores, Dict.get?_insert, if_pos hname.symm] at hout
    cases hout
  | absent => exact absurd rfl (hstage _)
  | done => exact absurd rfl (hstage _)

/-- How a refresh ends after its record is in. -/
inductive Refresh.Concluded (s : Store) (c : Cache) : Progress × Cache → Prop
  | refused {err : CacheError} {c' : Cache} (hkept : c'.contents = c.contents) :
    Concluded s c (Refresh.refuse err, c')
  | done {c' : Cache} : Concluded s c (.ended (.ok (some s)), c')

theorem Refresh.concluded (s : Store) (source : Source) (c : Cache) :
    Concluded s c (Refresh.resume b .upsert n (.schemas s) source c) := by
  have hresumed := Refresh.resumed b .upsert n (.schemas s) source c
  generalize Refresh.resume b .upsert n (.schemas s) source c = next at hresumed ⊢
  cases hresumed with
  | refused => exact .refused rfl
  | unusable => exact .refused rfl
  | absent => exact .refused rfl
  | done => exact .done

/-! ### What the call does and what others do -/

/-- The answers that the call `id` gets leave what the cache holds alone. -/
def Kept (b : Behaviour) (v : World) (id : CallId) (events : List Event) : Prop :=
  ∀ earlier source, earlier ++ [.answer id source] <+: events →
    (v.run b (earlier ++ [.answer id source])).cache.contents = (v.run b earlier).cache.contents

/-- One answer that the call `id` gets is the record `s` on the cluster of the placement `p`, and
puts the two in; the others leave what the cache holds alone. -/
def Placed (b : Behaviour) (v : World) (id : CallId) (p : Placement) (s : Store)
    (events : List Event) : Prop :=
  ∃ earlier source later, events = earlier ++ .answer id source :: later ∧ Kept b v id earlier ∧
    source.record s.name p.cluster = .ok s ∧
    (v.run b (earlier ++ [.answer id source])).cache.contents =
      (v.run b earlier).cache.contents.put p s.completed ∧
    Kept b (v.run b (earlier ++ [.answer id source])) id later

/-- The call `id` has come to ask for the schemas of the store `n`. -/
def AskedSchemas (b : Behaviour) (v : World) (id : CallId) (n : String) (events : List Event) :
    Prop :=
  ∃ earlier, earlier <+: events ∧
    ∃ s, (v.run b earlier).task? id = some (.refresh n (.schemas s) false)

/-- Nothing but the call `id` touches what the cache holds about the store `n`. -/
def Untouched (b : Behaviour) (v : World) (id : CallId) (n : String) (events : List Event) : Prop :=
  ∀ earlier e, earlier ++ [e] <+: events → (∀ source, e ≠ .answer id source) →
    (v.run b (earlier ++ [e])).cache.shelf n = (v.run b earlier).cache.shelf n

/-- Nothing but the call `id` touches what the cache holds. -/
def Undisturbed (b : Behaviour) (v : World) (id : CallId) (events : List Event) : Prop :=
  ∀ earlier e, earlier ++ [e] <+: events → (∀ source, e ≠ .answer id source) →
    (v.run b (earlier ++ [e])).cache.contents = (v.run b earlier).cache.contents

theorem kept_nil : Kept b v id [] := fun earlier source h ↦ by
  simpa using List.prefix_nil.1 h

theorem Kept.concat (h : Kept b v id events)
    (he : ∀ source, e = .answer id source →
      (v.run b (events ++ [e])).cache.contents = (v.run b events).cache.contents) :
    Kept b v id (events ++ [e]) := by
  intro earlier source hp
  rcases List.prefix_concat_iff.1 hp with heq | hp
  · obtain ⟨rfl, hlast⟩ := List.append_inj' heq rfl
    obtain rfl : .answer id source = e := List.singleton_inj.1 hlast
    exact he source rfl
  · exact h earlier source hp

theorem Placed.concat {p : Placement} {s : Store} (h : Placed b v id p s events)
    (he : ∀ source, e = .answer id source →
      (v.run b (events ++ [e])).cache.contents = (v.run b events).cache.contents) :
    Placed b v id p s (events ++ [e]) := by
  obtain ⟨earlier, source, later, rfl, hearlier, hs, hput, hlater⟩ := h
  refine ⟨earlier, source, later ++ [e], by simp, hearlier, hs, hput,
    hlater.concat fun source' h ↦ ?_⟩
  have hrun := he source' h
  rw [List.append_cons earlier, World.run_concat, World.run_append] at hrun
  rwa [World.run_concat]

theorem AskedSchemas.concat (h : AskedSchemas b v id n events) :
    AskedSchemas b v id n (events ++ [e]) := by
  obtain ⟨earlier, hp, hs⟩ := h
  exact ⟨earlier, hp.trans (List.prefix_append events [e]), hs⟩

theorem not_askedSchemas_concat (h : ¬ AskedSchemas b v id n events)
    (he : ∀ s, (v.run b (events ++ [e])).task? id ≠ some (.refresh n (.schemas s) false)) :
    ¬ AskedSchemas b v id n (events ++ [e]) := by
  rintro ⟨earlier, hp, s, hs⟩
  rcases List.prefix_concat_iff.1 hp with rfl | hp
  · exact he s hs
  · exact h ⟨earlier, hp, s, hs⟩

theorem untouched_of_answers (h : ∀ e ∈ events, ∃ source, e = .answer id source) :
    Untouched b v id n events := by
  intro earlier e hp hne
  obtain ⟨source, he⟩ := h e (hp.subset (List.mem_append_right earlier List.mem_cons_self))
  exact absurd he (hne source)

theorem undisturbed_of_answers (h : ∀ e ∈ events, ∃ source, e = .answer id source) :
    Undisturbed b v id events := by
  intro earlier e hp hne
  obtain ⟨source, he⟩ := h e (hp.subset (List.mem_append_right earlier List.mem_cons_self))
  exact absurd he (hne source)

/-- What nobody changes stays as it is. -/
theorem Kept.contents_eq (h : Kept b v id events) (hothers : Undisturbed b v id events) :
    (v.run b events).cache.contents = v.cache.contents := by
  induction events using List.reverseRecOn with
  | nil => rfl
  | append_singleton events e ih =>
    have hbefore : (v.run b events).cache.contents = v.cache.contents :=
      ih (fun earlier source hp ↦ h earlier source (hp.trans (List.prefix_append events [e])))
        fun earlier e' hp ↦ hothers earlier e' (hp.trans (List.prefix_append events [e]))
    refine Eq.trans ?_ hbefore
    by_cases he : ∃ source, e = .answer id source
    · obtain ⟨source, rfl⟩ := he
      exact h events source List.prefix_rfl
    · exact hothers events e List.prefix_rfl fun source hs ↦ he ⟨source, hs⟩

theorem Placed.contents_eq {p : Placement} {s : Store} (h : Placed b v id p s events)
    (hothers : Undisturbed b v id events) :
    (v.run b events).cache.contents = v.cache.contents.put p s.completed := by
  obtain ⟨earlier, source, later, rfl, hearlier, -, hput, hlater⟩ := h
  have hbefore : (v.run b earlier).cache.contents = v.cache.contents :=
    hearlier.contents_eq fun before e hp ↦ hothers before e (hp.trans (List.prefix_append _ _))
  rw [hbefore] at hput
  rw [List.append_cons, World.run_append]
  refine (hlater.contents_eq fun before e hp hne ↦ ?_).trans hput
  rw [← World.run_append, ← World.run_append, ← List.append_assoc]
  refine hothers (earlier ++ [.answer id source] ++ before) e ?_ hne
  rw [List.append_cons earlier _ later, List.append_assoc _ before]
  exact (List.prefix_append_right_inj _).2 hp

/-! ### The call from its first question to its end -/

/-- Where a subscription has come to after the events, and what there is to see of it. -/
inductive Subscribing (b : Behaviour) (v : World) (id : CallId) (n : String)
    (events : List Event) : Prop
  /-- The call has written nothing. It waits for a placement or a record, or waits no more. -/
  | traceless (ht : (v.run b events).task? id = none ∨ ∃ stage, (∀ s, stage ≠ .schemas s) ∧
      (v.run b events).task? id = some (.refresh n stage false))
    (hshelf : (v.run b events).cache.shelf n = .bare) (hkept : Kept b v id events)
    (hasked : ¬ AskedSchemas b v id n events)
  /-- The call has put a record in. It waits for the schemas, or waits no more. -/
  | stranded (p : Placement) (s : Store) (hname : s.name = n)
    (ht : (v.run b events).task? id = none ∨
      (v.run b events).task? id = some (.refresh n (.schemas s.completed) false))
    (hshelf : (v.run b events).cache.shelf n = ⟨some s.completed, some p, none⟩)
    (hplaced : Placed b v id p s events) (hasked : AskedSchemas b v id n events)
  | done (ht : (v.run b events).task? id = none)
    (ho : (v.run b events).outcomes.lookup id = some (.ok .done))

theorem Contents.shelf_put {c d : Cache} {p : Placement} {s : Store}
    (h : d.contents = c.contents.put p s) :
    d.shelf s.name = ⟨some s, some p, c.schemas.get? s.name⟩ := by
  simp only [Cache.contents, Contents.put, Contents.mk.injEq] at h
  obtain ⟨hstores, hplacements, hschemas, -⟩ := h
  simp [Cache.shelf, hstores, hplacements, hschemas, Dict.get?_insert]

/-- A call that has written nothing goes on without writing. -/
theorem Subscribing.traceless_concat (hshelf : (v.run b events).cache.shelf n = .bare)
    (hkept : Kept b v id events) (hasked : ¬ AskedSchemas b v id n events)
    (ht : (v.run b (events ++ [e])).task? id = none ∨ ∃ stage, (∀ s, stage ≠ .schemas s) ∧
      (v.run b (events ++ [e])).task? id = some (.refresh n stage false))
    (hsame : (v.run b (events ++ [e])).cache.shelf n = (v.run b events).cache.shelf n)
    (hkeeps : ∀ source, e = .answer id source →
      (v.run b (events ++ [e])).cache.contents = (v.run b events).cache.contents) :
    Subscribing b v id n (events ++ [e]) := by
  refine .traceless ht (hsame.trans hshelf) (hkept.concat hkeeps)
    (not_askedSchemas_concat hasked fun s hs ↦ ?_)
  rcases ht with ht | ⟨stage, hstage, ht⟩ <;> rw [hs] at ht <;> cases ht
  exact hstage s rfl

/-- An event at which the call does not go on, though it may be given up. -/
theorem Subscribing.still (h : Subscribing b v id n events)
    (htask : (v.run b (events ++ [e])).task? id = none ∨
      (v.run b (events ++ [e])).task? id = (v.run b events).task? id)
    (houtcome : (v.run b events).task? id = none →
      (v.run b (events ++ [e])).outcomes.lookup id = (v.run b events).outcomes.lookup id)
    (hsame : (v.run b (events ++ [e])).cache.shelf n = (v.run b events).cache.shelf n)
    (hkeeps : ∀ source, e = .answer id source →
      (v.run b (events ++ [e])).cache.contents = (v.run b events).cache.contents) :
    Subscribing b v id n (events ++ [e]) := by
  cases h with
  | traceless ht hshelf hkept hasked =>
    refine .traceless_concat hshelf hkept hasked ?_ hsame hkeeps
    rcases htask with hnone | heq
    · exact Or.inl hnone
    · rwa [heq]
  | stranded p s hname ht hshelf hplaced hasked =>
    refine .stranded p s hname ?_ (hsame.trans hshelf) (hplaced.concat hkeeps) hasked.concat
    rcases htask with hnone | heq
    · exact Or.inl hnone
    · rwa [heq]
  | done ht ho =>
    refine .done ?_ ((houtcome ht).trans ho)
    rcases htask with hnone | heq
    · exact hnone
    · exact heq.trans ht

/-- Whatever happens besides leaves the call where it is, or gives it up. -/
theorem Subscribing.others (h : Subscribing b v id n events)
    (hknows : (v.run b events).knows id) (hne : ∀ source, e ≠ .answer id source)
    (hsame : (v.run b (events ++ [e])).cache.shelf n = (v.run b events).cache.shelf n) :
    Subscribing b v id n (events ++ [e]) := by
  have hgone : (v.run b events).task? id = none → (v.run b (events ++ [e])).task? id = none ∧
      (v.run b (events ++ [e])).outcomes.lookup id = (v.run b events).outcomes.lookup id := by
    rw [World.run_concat]
    exact fun ht ↦ World.step_of_task?_none hknows ht e
  have hwaits : ∀ stage, (v.run b events).task? id = some (.refresh n stage false) →
      (v.run b (events ++ [e])).task? id = none ∨
        (v.run b (events ++ [e])).task? id = (v.run b events).task? id := by
    intro stage ht
    rw [World.run_concat, ht]
    exact (World.step_of_unanswered hknows ht (fun _ h ↦ by cases h) hne).1.symm
  refine h.still ?_ (fun ht ↦ (hgone ht).2) hsame fun source he ↦ absurd he (hne source)
  cases h with
  | traceless ht =>
    rcases ht with ht | ⟨stage, -, ht⟩
    · exact Or.inl (hgone ht).1
    · exact hwaits stage ht
  | stranded p s _ ht =>
    rcases ht with ht | ht
    · exact Or.inl (hgone ht).1
    · exact hwaits (.schemas s.completed) ht
  | done ht => exact Or.inl (hgone ht).1

theorem World.run_answer {stage : Stage} (source : Source)
    (ht : (v.run b events).task? id = some (.refresh n stage false)) :
    v.run b (events ++ [.answer id source]) = (v.run b events).continueRefresh id n false
      (Refresh.resume b .upsert n stage source (v.run b events).cache) := by
  rw [World.run_concat, World.step_answer_of_some ht]
  rfl

/-- An answer before the record is in. -/
theorem Subscribing.answered_traceless {stage : Stage} (hstage : ∀ s, stage ≠ .schemas s)
    (ht : (v.run b events).task? id = some (.refresh n stage false))
    (hshelf : (v.run b events).cache.shelf n = .bare) (hkept : Kept b v id events)
    (hasked : ¬ AskedSchemas b v id n events)
    (hb : b.Passive (v.run b events).cache.journal) (source : Source) :
    Subscribing b v id n (events ++ [.answer id source]) := by
  have hrun := World.run_answer source ht
  have hnext := Refresh.begun hstage source hb (congrArg Shelf.store hshelf)
  generalize Refresh.resume b .upsert n stage source (v.run b events).cache = next at hrun hnext
  cases hnext with
  | refused hsame =>
    have hcontents : (v.run b (events ++ [.answer id source])).cache.contents =
        (v.run b events).cache.contents := by
      rw [hrun]
      exact hsame
    refine .traceless_concat hshelf hkept hasked (Or.inl ?_)
      (Cache.shelf_eq_of_contents hcontents n) fun _ _ ↦ hcontents
    rw [hrun]
    exact (World.task?_finish _ id _ id).trans (if_pos rfl)
  | @asks p _ hsame =>
    have hcontents : (v.run b (events ++ [.answer id source])).cache.contents =
        (v.run b events).cache.contents := by
      rw [hrun]
      exact hsame
    refine .traceless_concat hshelf hkept hasked (Or.inr ⟨.record p, nofun, ?_⟩)
      (Cache.shelf_eq_of_contents hcontents n) fun _ _ ↦ hcontents
    rw [hrun]
    exact (World.task?_wait _ id _ id).trans (if_pos rfl)
  | @installs p s _ hs hname hput =>
    -- This is the answer that `Placed` speaks of: the schemas are asked for, and nobody undoes it.
    have htask : (v.run b (events ++ [.answer id source])).task? id =
        some (.refresh n (.schemas s.completed) false) := by
      rw [hrun]
      exact (World.task?_wait _ id _ id).trans (if_pos rfl)
    have hcontents : (v.run b (events ++ [.answer id source])).cache.contents =
        (v.run b events).cache.contents.put p s.completed := by
      rw [hrun]
      exact hput
    have hschemas : (v.run b events).cache.schemas.get? n = none := congrArg Shelf.schemas hshelf
    have hfilled := Contents.shelf_put hcontents
    rw [Store.name_completed, hname, hschemas] at hfilled
    exact .stranded p s hname (Or.inr htask) hfilled
      ⟨events, source, [], rfl, hkept, hname ▸ hs, hcontents, kept_nil⟩
      ⟨_, List.prefix_rfl, s.completed, htask⟩

/-- An answer after the record is in. -/
theorem Subscribing.answered_stranded {p : Placement} {s : Store} (hname : s.name = n)
    (ht : (v.run b events).task? id = some (.refresh n (.schemas s.completed) false))
    (hshelf : (v.run b events).cache.shelf n = ⟨some s.completed, some p, none⟩)
    (hplaced : Placed b v id p s events) (hasked : AskedSchemas b v id n events)
    (source : Source) : Subscribing b v id n (events ++ [.answer id source]) := by
  have hrun := World.run_answer source ht
  have hnext := Refresh.concluded (b := b) (n := n) s.completed source (v.run b events).cache
  generalize Refresh.resume b .upsert n (.schemas s.completed) source (v.run b events).cache = next
    at hrun hnext
  cases hnext with
  | refused hsame =>
    have hcontents : (v.run b (events ++ [.answer id source])).cache.contents =
        (v.run b events).cache.contents := by
      rw [hrun]
      exact hsame
    refine .stranded p s hname (Or.inl ?_) ((Cache.shelf_eq_of_contents hcontents n).trans hshelf)
      (hplaced.concat fun _ _ ↦ hcontents) hasked.concat
    rw [hrun]
    exact (World.task?_finish _ id _ id).trans (if_pos rfl)
  | done =>
    refine .done ?_ ?_ <;> rw [hrun]
    · exact (World.task?_finish _ id _ id).trans (if_pos rfl)
    · exact List.lookup_cons_self

/-- **An answer takes the call on**: to its next question, to a refusal, or to its end. Only the one
that brings the record in changes what the cache holds. -/
theorem Subscribing.answered (h : Subscribing b v id n events)
    (hb : b.Passive (v.run b events).cache.journal) (source : Source) :
    Subscribing b v id n (events ++ [.answer id source]) := by
  have hignored : (v.run b events).task? id = none →
      Subscribing b v id n (events ++ [.answer id source]) := fun ht ↦ by
    have hrun : v.run b (events ++ [.answer id source]) = v.run b events := by
      rw [World.run_concat, World.step_answer_of_none ht]
    exact h.still (Or.inr (by rw [hrun])) (fun _ ↦ by rw [hrun]) (by rw [hrun])
      fun _ _ ↦ by rw [hrun]
  cases h with
  | traceless ht hshelf hkept hasked =>
    rcases ht with ht | ⟨stage, hstage, ht⟩
    · exact hignored ht
    · exact .answered_traceless hstage ht hshelf hkept hasked hb source
  | stranded p s hname ht hshelf hplaced hasked =>
    rcases ht with ht | ht
    · exact hignored ht
    · exact .answered_stranded hname ht hshelf hplaced hasked source
  | done ht => exact hignored ht

theorem Subscribing.run (h : Subscribing b v id n []) (hb : b.Passive v.cache.journal)
    (hknows : v.knows id) (hothers : Untouched b v id n events) : Subscribing b v id n events := by
  induction events using List.reverseRecOn with
  | nil => exact h
  | append_singleton events e ih =>
    have hbefore : Subscribing b v id n events :=
      ih fun earlier e' hp ↦ hothers earlier e' (hp.trans (List.prefix_append events [e]))
    by_cases he : ∃ source, e = .answer id source
    · obtain ⟨source, rfl⟩ := he
      exact hbefore.answered (hb.mono (World.run_wrote b v events).suffix) source
    · have hne : ∀ source, e ≠ .answer id source := fun source hs ↦ he ⟨source, hs⟩
      exact hbefore.others (World.run_knows hknows events) hne (hothers events e List.prefix_rfl hne)

/-- A call for a store that is not there begins with the question where it is. -/
theorem World.step_subscribe (hnew : w.knows id = false) (hphase : w.cache.phase = .started)
    (hn : w.cache.stores.get? n = none) :
    w.step b (.call id (.subscribe n)) =
      (w.withCache (Refresh.start n w.cache)).wait id (.refresh n .placement false) := by
  have hhas : w.cache.has n = .ok false := by
    simp only [Cache.has, hphase, Phase.usable, Dict.contains, hn]
    rfl
  simp only [World.step, hnew, Bool.false_eq_true, if_false, World.call, hhas, World.beginRefresh,
    hphase, Phase.usable]

theorem subscribing_nil (hnew : w.knows id = false) (hphase : w.cache.phase = .started)
    (hshelf : w.cache.shelf n = .bare) :
    Subscribing b (w.step b (.call id (.subscribe n))) id n [] := by
  rw [World.step_subscribe hnew hphase (congrArg Shelf.store hshelf)]
  have ht := (World.task?_wait (w.withCache (Refresh.start n w.cache)) id
    (.refresh n .placement false) id).trans (if_pos rfl)
  refine .traceless (Or.inr ⟨.placement, nofun, ht⟩) hshelf kept_nil ?_
  rintro ⟨earlier, hp, s, hs⟩
  obtain rfl := List.prefix_nil.1 hp
  rw [World.run_nil, ht] at hs
  cases hs

/-- **What a failed subscription leaves behind.** Let a store that is not subscribed be subscribed
in any world a run leads to, with listeners that are passive from then on, let nobody else touch
what the cache holds about it, and let the call fail.

* If the call has not come to ask for the schemas, the store is not subscribed and the call has
  changed nothing.
* If it has, the store is subscribed, with the record and the placement the call has been told and
  without schemas; that is what the call has changed. -/
theorem trace_of_failed_subscription (b : Behaviour) (tracks : Bool) (clock : Nat)
    (before : List Event) (id : CallId) (n : String) (after : List Event)
    (hb : b.Passive ((World.new tracks clock).run b before).cache.journal)
    (hnew : ((World.new tracks clock).run b before).knows id = false)
    (hphase : ((World.new tracks clock).run b before).cache.phase = .started)
    (hn : ((World.new tracks clock).run b before).cache.stores.get? n = none)
    (hothers : Untouched b
      (((World.new tracks clock).run b before).step b (.call id (.subscribe n))) id n after)
    (hfailed : ∃ err, ((((World.new tracks clock).run b before).step b
      (.call id (.subscribe n))).run b after).outcomes.lookup id = some (.error err)) :
    let w := (World.new tracks clock).run b before
    let v := w.step b (.call id (.subscribe n))
    let u := v.run b after
    v.cache.contents = w.cache.contents ∧
    (¬ AskedSchemas b v id n after →
      u.cache.shelf n = .bare ∧ Kept b v id after ∧
      (Undisturbed b v id after → u.cache.contents = w.cache.contents)) ∧
    (AskedSchemas b v id n after →
      ∃ p s, s.name = n ∧ u.cache.shelf n = ⟨some s.completed, some p, none⟩ ∧
        Placed b v id p s after ∧
        (Undisturbed b v id after → u.cache.contents = w.cache.contents.put p s.completed)) := by
  intro w v u
  -- A shelf without a record is bare after every run, so there is nothing to go back to but that.
  have hshelf : w.cache.shelf n = .bare := by
    rcases (run_sound b tracks clock before n).cases with ⟨hs, hp, hd⟩ | ⟨s, p, hs, -⟩
    · rw [Cache.shelf, hs, hp, hd, Shelf.bare]
    · rw [hn] at hs
      cases hs
  have hv : v.cache.contents = w.cache.contents := by
    show (w.step b (.call id (.subscribe n))).cache.contents = w.cache.contents
    rw [World.step_subscribe hnew hphase hn]
    rfl
  have hknows : v.knows id := by
    show (w.step b (.call id (.subscribe n))).knows id
    rw [World.step_subscribe hnew hphase hn]
    simp [World.knows, World.wait]
  refine ⟨hv, ?_⟩
  have hpassive : b.Passive v.cache.journal :=
    hb.mono (World.run_wrote b w [.call id (.subscribe n)]).suffix
  cases (subscribing_nil (b := b) hnew hphase hshelf).run hpassive hknows hothers with
  | traceless _ hbare hkept hasked =>
    exact ⟨fun _ ↦ ⟨hbare, hkept, fun h ↦ (hkept.contents_eq h).trans hv⟩,
      fun h ↦ absurd h hasked⟩
  | stranded p s hname _ hleft hplaced hasked =>
    refine ⟨fun h ↦ absurd hasked h, fun _ ↦ ⟨p, s, hname, hleft, hplaced, fun h ↦ ?_⟩⟩
    rw [← hv]
    exact hplaced.contents_eq h
  | done _ ho =>
    obtain ⟨err, herr⟩ := hfailed
    rw [ho] at herr
    cases herr

/-- A source that has a record of a store, and answers too late about its schemas. -/
def Source.late : Source :=
  { Source.constant (.new "orders" "east") { Store.new "orders" with readQuota := 7 } with
    schemas := fun _ ↦ .error .timeout }

/-- The subscription of a store gets three answers, and nothing else happens. -/
def lateAnswers : List Event := List.replicate 3 (.answer 1 .late)

theorem eq_answer_of_mem_lateAnswers : ∀ e ∈ lateAnswers, ∃ source, e = .answer 1 source :=
  fun _ he ↦ ⟨.late, List.eq_of_mem_replicate he⟩

theorem passive_silent (journal : List Entry) : Behaviour.silent.Passive journal :=
  Cache.passive_of_script fun _ _ _ _ _ ↦ trivial

/-- When the schemas come too late the call is refused, and all it has done is to put the record
in. -/
theorem contents_of_lateAnswers :
    let w := (World.new false 0).run .silent [.call 0 .start]
    let u := (w.step .silent (.call 1 (.subscribe "orders"))).run .silent lateAnswers
    u.outcomes.lookup 1 = some (.error (.fetchFailed "orders" .timeout)) ∧
      ∃ (p : Placement) (s : Store), s.name = "orders" ∧
        u.cache.contents = w.cache.contents.put p s.completed := by
  have hfailed : ((((World.new false 0).run .silent [.call 0 .start]).step .silent
      (.call 1 (.subscribe "orders"))).run .silent lateAnswers).outcomes.lookup 1 =
        some (.error (.fetchFailed "orders" .timeout)) := by
    decide
  have hstays : ((((World.new false 0).run .silent [.call 0 .start]).step .silent
      (.call 1 (.subscribe "orders"))).run .silent lateAnswers).cache.shelf "orders" ≠ .bare := by
    decide
  obtain ⟨-, htraceless, hleft⟩ := trace_of_failed_subscription .silent false 0 [.call 0 .start] 1
    "orders" lateAnswers (passive_silent _) (by decide) (by decide) (by decide)
    (untouched_of_answers eq_answer_of_mem_lateAnswers) ⟨_, hfailed⟩
  have hasked := Classical.byContradiction fun h ↦ hstays (htraceless h).1
  obtain ⟨p, s, hname, -, -, hcontents⟩ := hleft hasked
  exact ⟨hfailed, p, s, hname, hcontents (undisturbed_of_answers eq_answer_of_mem_lateAnswers)⟩

/-- **A failed subscription may leave a trace**, even if nothing happens but that it is answered:
the store is subscribed, and its read quota counts. -/
theorem not_traceless_of_failed_subscription :
    ¬ ∀ (b : Behaviour) (tracks : Bool) (clock : Nat) (before : List Event) (id : CallId)
      (n : String) (after : List Event),
      let w := (World.new tracks clock).run b before
      let u := (w.step b (.call id (.subscribe n))).run b after
      b.Passive w.cache.journal → w.knows id = false → w.cache.phase = .started →
      w.cache.stores.get? n = none → (∀ e ∈ after, ∃ source, e = .answer id source) →
      (∃ err, u.outcomes.lookup id = some (.error err)) →
        u.cache.stores.get? n = none ∧ u.cache.contents = w.cache.contents := by
  intro h
  have hclaimed := h .silent false 0 [.call 0 .start] 1 "orders" lateAnswers (passive_silent _)
    (by decide) (by decide) (by decide) eq_answer_of_mem_lateAnswers
    ⟨.fetchFailed "orders" .timeout, by decide⟩
  have hquota := congrArg Contents.totalQuota hclaimed.2
  revert hquota
  decide

end StoreCache
