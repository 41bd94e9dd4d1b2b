import StoreCache.Proofs.Overlap
import StoreCache.Proofs.Question

/-!
# The gate

A cache is of use between its start and its clearing. The gate is at each entry: what a caller asks
for outside of that time is refused **at once, and nothing else happens** (`World.Shut`). Being
started and being cleared are the two transitions, and each has a call of its own to make it
(`Phase.Moves`).

A clearing call leaves the cache cleared, and full, while it waits for the periodic task, and
anybody may call anything then. What keeps the transitions single is the phase alone: only a cache
that has not been started is started and gets a periodic task, and only a cache that has not been
cleared is cleared, by the first call to clear it. Every further call to clear it fails, whether the
first has returned or still waits or has been given up (`World.Gated`).
-/

namespace StoreCache

variable {b : Behaviour} {w u : World} {e : Event} {id : CallId} {op : Operation}
  {order : List String} {err : CacheError} {events : List Event}

namespace World

/-! ### Calls that return at once -/

/-- A call has returned at once, and nothing else has happened. -/
def returning (w : World) (id : CallId) (o : Outcome) : World :=
  { w with outcomes := (id, o) :: w.outcomes }

theorem finish_of_new (hnew : w.knows id = false) (o : Outcome) :
    w.finish id o = w.returning id o := by
  have htasks : w.tasks.filter (·.1 ≠ id) = w.tasks := by
    refine List.filter_eq_self.2 fun x hx ↦ decide_eq_true fun hid ↦ ?_
    have hnone : w.tasks.lookup id = none := task?_of_new hnew
    have hother := List.lookup_eq_none_iff.1 hnone x hx
    simp [hid] at hother
  rw [finish, htasks, returning]

end World

/-- A call for the operation is of use only while the cache is started. -/
def Operation.IsGated : Operation → Prop
  | .subscribe _ | .refresh _ | .sweep _ | .schema _ _ => True
  | .start | .clear _ | .unsubscribe _ | .register _ | .unregister _ => False

/-- Every read of the cache is refused. -/
structure Cache.Refuses (c : Cache) (err : CacheError) : Prop where
  store? : ∀ n, c.store? n = .error err
  store : ∀ n, c.store n = .error err
  has : ∀ n, c.has n = .error err
  all : c.all = .error err
  readQuota : c.readQuota = .error err
  batchGetLimit : ∀ n, c.batchGetLimit n = .error err
  readComputation : ∀ n, c.readComputation n = .error err
  cluster? : ∀ n, c.cluster? n = .error err

/-- The cache refuses whatever it is asked for, and does nothing else. -/
structure World.Shut (b : Behaviour) (w : World) (err : CacheError) : Prop where
  calls : ∀ id op, op.IsGated → w.knows id = false →
    w.step b (.call id op) = w.returning id (.error err)
  reads : w.cache.Refuses err

theorem Cache.refuses_of_usable {c : Cache} (h : c.phase.usable = .error err) : c.Refuses err := by
  have hstore? : ∀ n, c.store? n = .error err := fun n ↦ by rw [Cache.store?, h]; rfl
  have hstore : ∀ n, c.store n = .error err := fun n ↦ by rw [Cache.store, hstore?]; rfl
  exact
    { store? := hstore?
      store := hstore
      has := fun n ↦ by rw [Cache.has, h]; rfl
      all := by rw [Cache.all, h]; rfl
      readQuota := by rw [Cache.readQuota, h]; rfl
      batchGetLimit := fun n ↦ by rw [Cache.batchGetLimit, hstore]; rfl
      readComputation := fun n ↦ by rw [Cache.readComputation, hstore]; rfl
      cluster? := fun n ↦ by rw [Cache.cluster?, h]; rfl }

namespace World

/-- **Outside its time a cache is shut.** -/
theorem shut_of_usable (h : w.cache.phase.usable = .error err) : w.Shut b err where
  calls id op hop hnew := by
    rw [step_call hnew, ← finish_of_new hnew]
    cases op with
    | subscribe name => rw [call, (Cache.refuses_of_usable h).has]
    | refresh name => rw [call, beginRefresh, h]
    | sweep order | schema name q => rw [call, h]
    | start | clear order | unsubscribe name | register l | unregister l => exact hop.elim
  reads := Cache.refuses_of_usable h

/-- To start a cache that has been started or cleared changes nothing. -/
theorem step_start_again (hnew : w.knows id = false) :
    (w.cache.phase = .started → w.step b (.call id .start) = w.returning id (.ok .done)) ∧
      (w.cache.phase = .cleared →
        w.step b (.call id .start) = w.returning id (.error .alreadyCleared)) := by
  refine ⟨fun hphase ↦ ?_, fun hphase ↦ ?_⟩ <;>
    rw [step_call hnew, ← finish_of_new hnew, call, hphase]

/-- So does to clear it again. -/
theorem step_clear_again (hnew : w.knows id = false) (hphase : w.cache.phase = .cleared) :
    w.step b (.call id (.clear order)) = w.returning id (.error .cleared) := by
  rw [step_call hnew, ← finish_of_new hnew, call, if_pos hphase]

/-- A cache comes to be cleared by a call to clear it. -/
theorem exists_clear_of_phase (hbefore : w.cache.phase ≠ .cleared)
    (hafter : (w.step b e).cache.phase = .cleared) :
    ∃ id order, e = .call id (.clear order) ∧ w.knows id = false := by
  obtain ⟨id, order, rfl⟩ : ∃ id order, e = .call id (.clear order) := by
    have hmoves := phase_step b w e
    rw [hafter] at hmoves
    generalize w.cache.phase = p at hbefore hmoves
    rcases hmoves with - | - | ⟨id, order, he⟩ | ⟨id, order, he⟩
    · exact absurd rfl hbefore
    · exact ⟨id, order, he⟩
    · exact ⟨id, order, he⟩
  refine ⟨id, order, rfl, Bool.eq_false_iff.2 fun hknows ↦ ?_⟩
  rw [step, if_pos hknows] at hafter
  exact hbefore hafter

/-! ### Calls of a run -/

/-- During a run the call `id` is made, for an operation. -/
def Made (b : Behaviour) (w : World) (events : List Event) (id : CallId) (op : Operation) : Prop :=
  ∃ before after, events = before ++ .call id op :: after ∧ (w.run b before).knows id = false

theorem not_made_nil : ¬ w.Made b [] id op := by
  rintro ⟨before, after, hevents, -⟩
  exact absurd hevents.symm (List.append_ne_nil_of_right_ne_nil before (List.cons_ne_nil _ after))

theorem Made.concat (h : w.Made b events id op) (e : Event) : w.Made b (events ++ [e]) id op := by
  obtain ⟨before, after, rfl, hnew⟩ := h
  exact ⟨before, after ++ [e], by rw [List.append_assoc, List.cons_append], hnew⟩

/-- The last event makes a call. -/
theorem made_concat_self (he : e = .call id op) (hnew : (w.run b events).knows id = false) :
    w.Made b (events ++ [e]) id op :=
  ⟨events, [], by rw [he], hnew⟩

theorem made_concat_iff : w.Made b (events ++ [e]) id op ↔
    w.Made b events id op ∨ e = .call id op ∧ (w.run b events).knows id = false := by
  refine ⟨?_, fun h ↦ h.elim (·.concat e) fun ⟨he, hnew⟩ ↦ made_concat_self he hnew⟩
  rintro ⟨before, after, hevents, hnew⟩
  rcases List.eq_nil_or_concat after with rfl | ⟨after', e', rfl⟩
  · obtain ⟨rfl, he⟩ := List.append_inj' hevents rfl
    exact Or.inr ⟨List.cons.inj he |>.1, hnew⟩
  · rw [List.concat_eq_append, ← List.cons_append, ← List.append_assoc] at hevents
    obtain ⟨rfl, -⟩ := List.append_inj' hevents rfl
    exact Or.inl ⟨before, after', rfl, hnew⟩

/-- A call that has returned stays so. -/
theorem lookup_step_of_some (h : w.Orderly) {o : Outcome} (ho : w.outcomes.lookup id = some o)
    (e : Event) : (w.step b e).outcomes.lookup id = some o := by
  have htask : w.task? id = none := by
    by_contra hwaits
    cases (h id hwaits).symm.trans ho
  have hknows : w.knows id := by simp [knows, ho]
  exact (step_of_task?_none hknows htask e).2.trans ho

/-- The first call to clear the cache. -/
def FirstClear (b : Behaviour) (w : World) (events : List Event) (id : CallId)
    (order : List String) : Prop :=
  ∃ before after, events = before ++ .call id (.clear order) :: after ∧
    (w.run b before).knows id = false ∧ ∀ id' order', ¬ w.Made b before id' (.clear order')

theorem FirstClear.concat (h : w.FirstClear b events id order) (e : Event) :
    w.FirstClear b (events ++ [e]) id order := by
  obtain ⟨before, after, rfl, hfirst⟩ := h
  exact ⟨before, after ++ [e], by rw [List.append_assoc, List.cons_append], hfirst⟩

/-! ### The periodic task -/

/-- The event spawns a periodic task: it is a call that finds a cache to start. -/
def Spawns (w : World) (e : Event) : Prop :=
  ∃ id, e = .call id .start ∧ w.knows id = false ∧ w.cache.phase = .notStarted

/-- Only a call spawns a task. -/
theorem not_spawns_of_ne (he : ∀ id op, e ≠ .call id op) : ¬ w.Spawns e := by
  rintro ⟨id, rfl, -⟩
  exact he id .start rfl

/-- The world in which a call has started the cache. -/
def opened (w : World) : World :=
  { w with cache := { w.cache with phase := .started }, background := .idle }

/-- A cache comes to be started by the call that spawns its task. -/
theorem spawns_of_phase (hbefore : w.cache.phase ≠ .started)
    (hafter : (w.step b e).cache.phase = .started) : w.Spawns e := by
  have hmoves := phase_step b w e
  rw [hafter] at hmoves
  generalize hp : w.cache.phase = p at hbefore hmoves
  rcases hmoves with - | ⟨id, rfl⟩
  · exact absurd rfl hbefore
  · refine ⟨id, rfl, Bool.eq_false_iff.2 fun hknows ↦ ?_, hp⟩
    rw [step, if_pos hknows, hp] at hafter
    cases hafter

/-- A cache that is started gets its task. -/
theorem step_of_spawns (h : w.Spawns e) :
    ∃ id, e = .call id .start ∧ w.knows id = false ∧
      w.step b e = w.opened.returning id (.ok .done) := by
  obtain ⟨id, rfl, hnew, hphase⟩ := h
  have hopened : w.opened.knows id = false := hnew
  refine ⟨id, rfl, hnew, ?_⟩
  rw [step_call hnew, call, hphase]
  exact finish_of_new hopened (.ok .done)

/-- A cache is not started twice. -/
theorem not_spawns_run (h : w.cache.phase ≠ .notStarted) (events : List Event) (e : Event) :
    ¬ (w.run b events).Spawns e := by
  rintro ⟨-, -, -, hphase⟩
  induction events generalizing w with
  | nil => exact h hphase
  | cons e' events ih =>
    refine ih (fun hphase' ↦ h ?_) hphase
    have hmoves := phase_step b w e'
    rw [hphase'] at hmoves
    generalize w.cache.phase = p at hmoves ⊢
    rcases hmoves with - | -
    rfl

/-- A call that spawns no task leaves the one there is alone. -/
theorem background_step_call (hspawns : ¬ w.Spawns (.call id op)) :
    (w.step b (.call id op)).background = w.background := by
  rcases hknows : w.knows id with - | -
  · rw [step_call hknows]
    rcases eq_or_ne op .start with rfl | hop
    · rw [call]
      rcases hphase : w.cache.phase with - | - | -
      · exact absurd ⟨id, rfl, hknows, hphase⟩ hspawns
      · rfl
      · rfl
    · exact background_call_of_ne hop
  · rw [step, if_pos hknows]

/-- **What the task does by itself**: nothing, or it goes on with a run or comes to the end of one,
and with that to its own end if it has been told to stop. -/
theorem background_step_own (hown : e.actor? = some .background) :
    (w.step b e).background = w.background ∨
      (w.background = .idle ∨ ∃ s, w.background = .sweeping s) ∧
        ((∃ s, (w.step b e).background = .sweeping s) ∨
          (w.step b e).background = if w.stopping then .ended else .idle) := by
  have hcontinue : ∀ next, (∃ s, (w.continueBackground next).background = .sweeping s) ∨
      (w.continueBackground next).background = if w.stopping then .ended else .idle := by
    rintro ⟨tally | s, c⟩
    · exact Or.inr rfl
    · exact Or.inl ⟨s, rfl⟩
  cases e with
  | tick order =>
    rw [step]
    split
    · rename_i hidle
      split
      · exact Or.inl rfl
      · rename_i hgoing
        rw [if_neg hgoing] at hcontinue
        exact Or.inr ⟨Or.inl hidle, hcontinue _⟩
    · exact Or.inl rfl
  | backgroundAnswer source =>
    rw [step]
    split
    · rename_i s hs
      exact Or.inr ⟨Or.inr ⟨s, hs⟩, hcontinue _⟩
    · exact Or.inl rfl
  | backgroundStop =>
    rw [step]
    split
    · rename_i hidle
      split
      · exact Or.inr ⟨Or.inl hidle, Or.inr rfl⟩
      · exact Or.inl rfl
    · exact Or.inl rfl
  | call | answer | abandon | proceed | graceOver | clock => cases hown

/-- There is no task before one is spawned, if nobody waits for it to end. -/
theorem background_step_of_absent (hspawns : ¬ w.Spawns e) (habsent : w.background = .absent)
    (hwaits : ∀ id order, w.task? id ≠ some (.clear order)) :
    (w.step b e).background = .absent := by
  rcases background_step b w e with hsame | ⟨-, id, op, rfl⟩ | ⟨-, id, order, -, htask⟩ | hown
  · exact hsame.trans habsent
  · exact (background_step_call hspawns).trans habsent
  · exact absurd htask (hwaits id order)
  · rcases background_step_own (b := b) (w := w) hown with hsame | ⟨hidle | ⟨s, hs⟩, -⟩
    · exact hsame.trans habsent
    · cases habsent.symm.trans hidle
    · cases habsent.symm.trans hs

/-- A task does not vanish. -/
theorem background_step_of_present (hpresent : w.background ≠ .absent) (e : Event) :
    (w.step b e).background ≠ .absent := by
  rcases background_step b w e with hsame | ⟨hidle, -⟩ | ⟨hended, -⟩ | hown
  · rwa [hsame]
  · rw [hidle]
    exact Background.noConfusion
  · rw [hended]
    exact Background.noConfusion
  · rcases background_step_own (b := b) (w := w) hown with hsame | ⟨-, ⟨s, hs⟩ | hover⟩
    · rwa [hsame]
    · rw [hs]
      exact Background.noConfusion
    · rw [hover]
      split <;> exact Background.noConfusion

/-- A task that has ended is not revived. -/
theorem background_step_of_ended (hspawns : ¬ w.Spawns e) (hended : w.background = .ended) :
    (w.step b e).background = .ended := by
  rcases background_step b w e with hsame | ⟨-, id, op, rfl⟩ | ⟨hstill, -⟩ | hown
  · exact hsame.trans hended
  · exact (background_step_call hspawns).trans hended
  · exact hstill
  · rcases background_step_own (b := b) (w := w) hown with hsame | ⟨hidle | ⟨s, hs⟩, -⟩
    · exact hsame.trans hended
    · cases hended.symm.trans hidle
    · cases hended.symm.trans hs

/-- **A task ends because it has been told to stop**, or because the call that waits for it breaks
it off. -/
theorem background_step_ended (hended : (w.step b e).background = .ended) :
    w.background = .ended ∨ w.stopping = true ∨
      ∃ id order, e = .graceOver id ∧ w.task? id = some (.clear order) := by
  rcases background_step b w e with hsame | ⟨hidle, -⟩ | ⟨-, hbroken⟩ | hown
  · exact Or.inl (hsame.symm.trans hended)
  · cases hidle.symm.trans hended
  · exact Or.inr (Or.inr hbroken)
  · rcases background_step_own (b := b) (w := w) hown with hsame | ⟨-, ⟨s, hs⟩ | hover⟩
    · exact Or.inl (hsame.symm.trans hended)
    · cases hs.symm.trans hended
    · refine Or.inr (Or.inl (Classical.byContradiction fun hgoing ↦ ?_))
      rw [if_neg hgoing] at hover
      cases hover.symm.trans hended

/-- Only of a cache that has been cleared the task has ended. -/
theorem phase_cleared_of_ended {tracks : Bool} {clock : Nat} {events : List Event}
    (hended : ((World.new tracks clock).run b events).background = .ended) :
    ((World.new tracks clock).run b events).cache.phase = .cleared := by
  induction events using List.reverseRecOn with
  | nil => cases hended
  | append_singleton events e ih =>
    rw [run_concat] at hended ⊢
    rcases background_step_ended hended with hbefore | hstopping | ⟨id, order, -, htask⟩
    · exact phase_cleared_run (ih hbefore) [e]
    · exact phase_cleared_run (phase_cleared_of_stopping hstopping) [e]
    · exact phase_cleared_run (phase_cleared_of_task? htask) [e]

/-- A cache that is started has got a task. -/
theorem present_of_run {tracks : Bool} {clock : Nat} {events : List Event}
    (hphase : ((World.new tracks clock).run b events).cache.phase = .started) :
    ((World.new tracks clock).run b events).background ≠ .absent := by
  induction events using List.reverseRecOn with
  | nil => cases hphase
  | append_singleton events e ih =>
    rw [run_concat] at hphase ⊢
    by_cases hbefore : ((World.new tracks clock).run b events).cache.phase = .started
    · exact background_step_of_present (ih hbefore) e
    · obtain ⟨_, -, -, hstep⟩ := step_of_spawns (b := b) (spawns_of_phase hbefore hphase)
      rw [hstep]
      exact Background.noConfusion

/-! ### What a run comes to -/

/-- **What is so after every run from `start`.** -/
structure Gated (b : Behaviour) (start : World) (events : List Event) (w : World) : Prop where
  unattended : w.cache.phase = .notStarted → w.background = .absent
  waits : w.background = .absent → ∀ id order, w.task? id ≠ some (.clear order)
  spawned : w.background ≠ .absent →
    ∃ id, start.Made b events id .start ∧ w.outcomes.lookup id = some (.ok .done)
  unclosed : w.cache.phase ≠ .cleared → ∀ id order, ¬ start.Made b events id (.clear order)
  closed : w.cache.phase = .cleared → ∃ id order, start.FirstClear b events id order ∧
    w.knows id ∧ Clearing id order w ∧ ∀ id' order', id' ≠ id →
      start.Made b events id' (.clear order') → w.outcomes.lookup id' = some (.error .cleared)

namespace Gated

variable {start : World}

/-- A task is spawned where there is none. -/
theorem absent_of_spawns (h : Gated b start events w) (hspawns : w.Spawns e) :
    w.background = .absent := by
  obtain ⟨-, -, -, hphase⟩ := hspawns
  exact h.unattended hphase

theorem unattended_step (h : Gated b start events w)
    (hphase : (w.step b e).cache.phase = .notStarted) : (w.step b e).background = .absent := by
  have hbefore : w.cache.phase = .notStarted := by
    have hmoves := phase_step b w e
    rw [hphase] at hmoves
    generalize w.cache.phase = p at hmoves ⊢
    rcases hmoves with - | -
    rfl
  have hspawns : ¬ w.Spawns e := by
    intro hspawns
    obtain ⟨id, -, -, hstep⟩ := step_of_spawns (b := b) hspawns
    rw [hstep] at hphase
    cases hphase
  have habsent := h.unattended hbefore
  exact background_step_of_absent hspawns habsent (h.waits habsent)

/-- A call to clear waits only for a task that is there. -/
theorem waits_step (h : Gated b start events w) (habsent : (w.step b e).background = .absent)
    (id : CallId) (order : List String) : (w.step b e).task? id ≠ some (.clear order) := by
  have hbefore : w.background = .absent := by
    by_contra hpresent
    exact background_step_of_present hpresent e habsent
  intro ht
  rcases step_task?_clear ht with hwaited | rfl
  · exact h.waits hbefore id order hwaited
  · rcases hknows : w.knows id with - | -
    · rw [step_call hknows, call] at ht
      split at ht
      · rw [task?_finish, if_pos rfl] at ht
        cases ht
      · simp only [hbefore, finishClear, task?_finish, if_pos] at ht
        cases ht
    · rw [step, if_pos hknows] at ht
      exact h.waits hbefore id order ht

theorem spawned_step (h : Gated b start events (start.run b events))
    (horderly : start.Orderly) (hpresent : ((start.run b events).step b e).background ≠ .absent) :
    ∃ id, start.Made b (events ++ [e]) id .start ∧
      ((start.run b events).step b e).outcomes.lookup id = some (.ok .done) := by
  by_cases hspawns : (start.run b events).Spawns e
  · obtain ⟨id, he, hnew, hstep⟩ := step_of_spawns (b := b) hspawns
    refine ⟨id, made_concat_self he hnew, ?_⟩
    rw [hstep]
    exact List.lookup_cons_self
  · have hbefore : (start.run b events).background ≠ .absent := fun habsent ↦
      hpresent (background_step_of_absent hspawns habsent (h.waits habsent))
    obtain ⟨id, hmade, hdone⟩ := h.spawned hbefore
    exact ⟨id, hmade.concat e, lookup_step_of_some (horderly.run events) hdone e⟩

theorem unclosed_step (h : Gated b start events (start.run b events))
    (hphase : ((start.run b events).step b e).cache.phase ≠ .cleared) (id : CallId)
    (order : List String) : ¬ start.Made b (events ++ [e]) id (.clear order) := by
  have hbefore : (start.run b events).cache.phase ≠ .cleared := fun hcleared ↦
    hphase (phase_cleared_run hcleared [e])
  intro hmade
  rcases made_concat_iff.1 hmade with hearlier | ⟨rfl, hnew⟩
  · exact h.unclosed hbefore id order hearlier
  · exact hphase (phase_cleared_step_clear order hnew hbefore)

/-- The cache stays cleared, and whoever wants to clear it again is refused. -/
theorem closed_step (h : Gated b start events (start.run b events)) (horderly : start.Orderly)
    (hphase : (start.run b events).cache.phase = .cleared) (e : Event) :
    ∃ id order, start.FirstClear b (events ++ [e]) id order ∧
      ((start.run b events).step b e).knows id ∧
      Clearing id order ((start.run b events).step b e) ∧
      ∀ id' order', id' ≠ id → start.Made b (events ++ [e]) id' (.clear order') →
        ((start.run b events).step b e).outcomes.lookup id' = some (.error .cleared) := by
  obtain ⟨id, order, hfirst, hknows, hclearing, hothers⟩ := h.closed hphase
  refine ⟨id, order, hfirst.concat e, step_knows hknows e, hclearing.step hknows hphase e,
    fun id' order' hne hmade ↦ ?_⟩
  rcases made_concat_iff.1 hmade with hearlier | ⟨rfl, hnew⟩
  · exact lookup_step_of_some (horderly.run events) (hothers id' order' hne hearlier) e
  · rw [step_clear_again hnew hphase]
    exact List.lookup_cons_self

/-- The cache comes to be cleared, by the first call to clear it. -/
theorem first_clear_step (h : Gated b start events (start.run b events))
    (hbefore : (start.run b events).cache.phase ≠ .cleared)
    (hphase : ((start.run b events).step b e).cache.phase = .cleared) :
    ∃ id order, start.FirstClear b (events ++ [e]) id order ∧
      ((start.run b events).step b e).knows id ∧
      Clearing id order ((start.run b events).step b e) ∧
      ∀ id' order', id' ≠ id → start.Made b (events ++ [e]) id' (.clear order') →
        ((start.run b events).step b e).outcomes.lookup id' = some (.error .cleared) := by
  obtain ⟨id, order, rfl, hnew⟩ := exists_clear_of_phase hbefore hphase
  obtain ⟨hclearing, hknows⟩ := clearing_step_clear (b := b) order hnew hbefore
  refine ⟨id, order, ⟨events, [], rfl, hnew, h.unclosed hbefore⟩, hknows, hclearing,
    fun id' order' hne hmade ↦ ?_⟩
  rcases made_concat_iff.1 hmade with hearlier | ⟨he, -⟩
  · exact absurd hearlier (h.unclosed hbefore id' order')
  · cases he
    exact absurd rfl hne

theorem concat (h : Gated b start events (start.run b events)) (horderly : start.Orderly)
    (e : Event) : Gated b start (events ++ [e]) (start.run b (events ++ [e])) := by
  rw [run_concat]
  exact
    { unattended := h.unattended_step
      waits := h.waits_step
      spawned := h.spawned_step horderly
      unclosed := h.unclosed_step
      closed := fun hphase ↦
        if hbefore : (start.run b events).cache.phase = .cleared
        then h.closed_step horderly hbefore e
        else h.first_clear_step hbefore hphase }

end Gated

theorem gated_of_run (b : Behaviour) (tracks : Bool) (clock : Nat) (events : List Event) :
    Gated b (World.new tracks clock) events ((World.new tracks clock).run b events) := by
  induction events using List.reverseRecOn with
  | nil =>
    exact
      { unattended := fun _ ↦ rfl
        waits := fun _ _ _ ↦ nofun
        spawned := fun hpresent ↦ absurd rfl hpresent
        unclosed := fun _ _ _ ↦ not_made_nil
        closed := nofun }
  | append_singleton events e ih => exact ih.concat (orderly_new tracks clock) e

/-- The call that clears the cache returns, if it is waited for. -/
theorem returns_of_clearing (h : Clearing id order w) (hwaits : w.task? id ≠ none) :
    ((w.step b (.graceOver id)).step b (.proceed id)).outcomes.lookup id = some (.ok .done) := by
  rcases h with ⟨ht, -⟩ | ⟨ht, -⟩ | ⟨ht, -, -⟩
  · have hgrace : w.step b (.graceOver id) = { w with background := .ended } := by
      rw [step, ht]
    have hstill : ({ w with background := .ended } : World).task? id = some (.clear order) := ht
    rw [hgrace, step, hstill]
    exact (cleared_finishClear _ id order).outcome
  · exact absurd ht hwaits
  · exact absurd ht hwaits

end World

/-! ### The theorem -/

/-- **The life of a cache.** Take any run from a new cache, with calls made, answered and given up
in any order, among them any number of calls to start and to clear, and let `w` be what it leads to.

* Whatever happens next, the phase stays or moves by one of the three transitions, and only the call
  that is for it makes one.
* A call to start the cache spawns a periodic task only where there is none, returns, and no later
  event of any run spawns another. Without it there is no task, and one that has ended stays so. If
  there is a task, a call to start the cache has returned `.ok`.
* Until the cache is cleared nobody has called for it. From then on there is the first call that
  did. It has returned `.ok`, or has been given up, or it waits and will. Every other one has been
  refused.
* While the cache is not started, or is cleared, it refuses every read, and whatever call needs it
  returns with that refusal and does nothing else.
* To start it again, or to clear it again, does nothing else than return either. -/
theorem lifecycle_of_run (b : Behaviour) (tracks : Bool) (clock : Nat) (events : List Event) :
    let start := World.new tracks clock
    let w := start.run b events
    (∀ e, Phase.Moves e w.cache.phase (w.step b e).cache.phase) ∧
    ((∀ e, w.Spawns e → w.background = .absent ∧ (w.step b e).background = .idle ∧
        (∃ id, e = .call id .start ∧
          (w.step b e).outcomes.lookup id = some (.ok .done)) ∧
        ∀ after e', ¬ ((w.step b e).run b after).Spawns e') ∧
      (∀ e, ¬ w.Spawns e → w.background = .absent → (w.step b e).background = .absent) ∧
      (∀ e, w.background = .ended → (w.step b e).background = .ended) ∧
      (w.background ≠ .absent → ∃ id, start.Made b events id .start ∧
        w.outcomes.lookup id = some (.ok .done))) ∧
    ((w.cache.phase ≠ .cleared → ∀ id order, ¬ start.Made b events id (.clear order)) ∧
      (w.cache.phase = .cleared → ∃ id order, start.FirstClear b events id order ∧
        (w.outcomes.lookup id = none ∨ w.outcomes.lookup id = some (.ok .done)) ∧
        (w.task? id ≠ none → ((w.step b (.graceOver id)).step b
          (.proceed id)).outcomes.lookup id = some (.ok .done)) ∧
        ∀ id' order', id' ≠ id → start.Made b events id' (.clear order') →
          w.outcomes.lookup id' = some (.error .cleared))) ∧
    ((w.cache.phase = .notStarted → w.Shut b .notStarted) ∧
      (w.cache.phase = .cleared → w.Shut b .cleared)) ∧
    ∀ id, w.knows id = false →
      (w.cache.phase = .started → w.step b (.call id .start) = w.returning id (.ok .done)) ∧
      (w.cache.phase = .cleared →
        w.step b (.call id .start) = w.returning id (.error .alreadyCleared) ∧
        ∀ order, w.step b (.call id (.clear order)) = w.returning id (.error .cleared)) := by
  intro start w
  have hgated : World.Gated b start events w := World.gated_of_run b tracks clock events
  refine ⟨World.phase_step b w, ⟨fun e hspawns ↦ ?_, fun e hspawns habsent ↦ ?_,
    fun e hended ↦ ?_, hgated.spawned⟩, ⟨hgated.unclosed, fun hphase ↦ ?_⟩,
    ⟨fun hphase ↦ ?_, fun hphase ↦ ?_⟩, fun id hnew ↦ ⟨fun hphase ↦ ?_, fun hphase ↦ ⟨?_, ?_⟩⟩⟩
  · obtain ⟨id, he, -, hstep⟩ := World.step_of_spawns (b := b) hspawns
    rw [hstep]
    exact ⟨hgated.absent_of_spawns hspawns, rfl, ⟨id, he, List.lookup_cons_self⟩,
      World.not_spawns_run nofun⟩
  · exact World.background_step_of_absent hspawns habsent (hgated.waits habsent)
  · refine World.background_step_of_ended (fun hspawns ↦ ?_) hended
    cases hended.symm.trans (hgated.absent_of_spawns hspawns)
  · obtain ⟨id, order, hfirst, -, hclearing, hothers⟩ := hgated.closed hphase
    refine ⟨id, order, hfirst, ?_, World.returns_of_clearing hclearing, hothers⟩
    rcases hclearing with ⟨-, hnone⟩ | ⟨-, hnone⟩ | ⟨-, hdone, -⟩
    · exact Or.inl hnone
    · exact Or.inl hnone
    · exact Or.inr hdone
  · exact World.shut_of_usable (by rw [hphase]; rfl)
  · exact World.shut_of_usable (by rw [hphase]; rfl)
  · exact (World.step_start_again hnew).1 hphase
  · exact (World.step_start_again hnew).2 hphase
  · exact fun order ↦ World.step_clear_again hnew hphase

/-- A call to clear the cache waits for the periodic task, and others come to start it and to clear
it again. -/
def clearedTwice : List Event :=
  ordersSubscribed ++ [.call 3 (.clear []), .call 4 .start, .call 5 (.clear [])]

/-- The store is still in the cache, which is shut, and nobody will get another task. -/
theorem lifecycle_of_clearedTwice :
    let w := (World.new true 0).run .silent clearedTwice
    w.cache.stores.contains "orders" = true ∧ w.Shut .silent .cleared ∧
      w.outcomes.lookup 4 = some (.error .alreadyCleared) ∧
      w.outcomes.lookup 5 = some (.error .cleared) ∧
      w.step .silent (.call 6 .start) = w.returning 6 (.error .alreadyCleared) := by
  obtain ⟨-, -, -, ⟨-, hshut⟩, hagain⟩ := lifecycle_of_run .silent true 0 clearedTwice
  have hphase : ((World.new true 0).run .silent clearedTwice).cache.phase = .cleared := by decide
  exact ⟨by decide, hshut hphase, by decide, by decide, ((hagain 6 (by decide)).2 hphase).1⟩

end StoreCache
