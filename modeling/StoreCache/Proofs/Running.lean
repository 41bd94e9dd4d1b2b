import StoreCache.Proofs.Schedule

/-!
# Running actors

An actor that runs works until it has to wait. Each way in which it may go on is followed here to
its end: **an actor that has been taken out to run leaves nobody busy**, at a later timeline
(`Follows.runActor`).

Where an answer takes time an actor that has asked something sets a timer. Where it takes none there
are no timers for answers at all: the actor is answered on the spot until it has no question left,
and that it comes to an end there is because every answer leaves fewer questions to ask.
-/

namespace StoreCache

namespace Session

variable {s : Session} {a : Actor} {up : Upstream} {t : Timeline} {x : Terms}

/-! ### Answers on the spot -/

theorem answerAll_of_asks {id : CallId} (h : s.world.Asks (.call id)) (n : Nat) :
    answerAll id (n + 1) s = answerAll id n (s.step (.answer id s.source)) := by
  obtain ⟨task, htask, hclear⟩ := World.asks_call.1 h
  rw [answerAll, htask]
  cases task with
  | refresh | sweep | schema => rfl
  | clear order => exact absurd rfl (hclear order)

theorem answerAll_of_not_asks {id : CallId} (h : ¬ s.world.Asks (.call id)) (n : Nat) :
    answerAll id n s = s := by
  cases n with
  | zero => rfl
  | succ n =>
    rw [answerAll]
    rcases htask : s.world.task? id with - | task
    · rfl
    · cases task with
      | clear order => rfl
      | refresh | sweep | schema =>
        exact absurd (World.asks_call.2 ⟨_, htask, fun _ h ↦ nomatch h⟩) h

theorem answerBackground_of_asks (h : s.world.Asks .background) (n : Nat) :
    answerBackground (n + 1) s = answerBackground n (s.step (.backgroundAnswer s.source)) := by
  obtain ⟨w, hw⟩ := World.asks_background.1 h
  rw [answerBackground, hw]

theorem answerBackground_of_not_asks (h : ¬ s.world.Asks .background) (n : Nat) :
    answerBackground n s = s := by
  cases n with
  | zero => rfl
  | succ n =>
    rw [answerBackground]
    split
    · rename_i w hw
      exact absurd (World.asks_background.2 ⟨w, hw⟩) h
    · rfl

namespace Follows

/-- Where an answer takes no time, a call is answered until it has no question left. -/
theorem answerAll {id : CallId} (hlatency : x.latency = 0) (n : Nat)
    (h : Follows up x (some (.call id)) s t)
    (hn : ∀ task, s.world.task? id = some task → (∀ order, task ≠ .clear order) →
      taskQuestionsLeft task ≤ n)
    (hasked : s.world.Asks (.call id) → t.asked (.call id) = x.now)
    (hfree : ∀ m ∈ s.timers, m.actor ≠ .call id) :
    ∃ u, Follows up x (some (.call id)) (answerAll id n s) u ∧
      ¬ (Session.answerAll id n s).world.Asks (.call id) := by
  induction n generalizing s t with
  | zero =>
    refine ⟨t, h, fun hasks ↦ ?_⟩
    obtain ⟨task, htask, hclear⟩ := World.asks_call.1 hasks
    exact absurd (hn task htask hclear) (Nat.not_le_of_lt (taskQuestionsLeft_pos hclear))
  | succ n ih =>
    by_cases hasks : s.world.Asks (.call id)
    · obtain ⟨task, htask, hclear⟩ := World.asks_call.1 hasks
      rw [answerAll_of_asks hasks]
      obtain ⟨hstep, hnow⟩ := h.answer (e := .answer id s.source) rfl
        (fun _ ↦ by rw [hasked hasks, hlatency, Nat.add_zero]) hfree
      refine ih hstep (fun task' htask' _ ↦ ?_) (fun _ ↦ hnow) hfree
      have hless := (World.questionsLeft_answer htask hclear htask').1
      have hbound := hn task htask hclear
      omega
    · rw [answerAll_of_not_asks hasks]
      exact ⟨t, h, hasks⟩

theorem answerBackground (hlatency : x.latency = 0) (n : Nat)
    (h : Follows up x (some .background) s t)
    (hn : ∀ w, s.world.background = .sweeping w → sweepQuestionsLeft w ≤ n)
    (hasked : s.world.Asks .background → t.asked .background = x.now)
    (hfree : ∀ m ∈ s.timers, m.actor ≠ .background) :
    ∃ u, Follows up x (some .background) (answerBackground n s) u ∧
      ¬ (Session.answerBackground n s).world.Asks .background ∧
      ∀ m ∈ (Session.answerBackground n s).timers, m.actor ≠ .background := by
  induction n generalizing s t with
  | zero =>
    refine ⟨t, h, fun hasks ↦ ?_, hfree⟩
    obtain ⟨w, hw⟩ := World.asks_background.1 hasks
    exact absurd (hn w hw) (Nat.not_le_of_lt (sweepQuestionsLeft_pos w))
  | succ n ih =>
    by_cases hasks : s.world.Asks .background
    · obtain ⟨w, hw⟩ := World.asks_background.1 hasks
      rw [answerBackground_of_asks hasks]
      obtain ⟨hstep, hnow⟩ := h.answer (e := .backgroundAnswer s.source) rfl
        (fun _ ↦ by rw [hasked hasks, hlatency, Nat.add_zero]) hfree
      refine ih hstep (fun w' hw' ↦ ?_) (fun _ ↦ hnow) hfree
      have hless := World.questionsLeft_backgroundAnswer hw hw'
      have hbound := hn w hw
      omega
    · rw [answerBackground_of_not_asks hasks]
      exact ⟨t, h, hasks, hfree⟩

/-! ### The periodic task -/

/-- The periodic task does something of its own. -/
theorem ownStep (h : Follows up x (some .background) s t)
    (hfree : ∀ m ∈ s.timers, m.actor ≠ .background) {e : Event} (hanswer : e.answer? = none)
    (hactor : e.actor? = some .background) :
    Follows up x (some .background) (s.step e) (t.event x.behaviour e) := by
  refine h.step (allows_of_answer?_none hanswer) (fun a ha ↦ hactor.symm.trans ha)
    (fun a ha _ ↦ Option.some.inj ha ▸ hfree) fun id op he ↦ ?_
  rw [he] at hactor
  cases hactor

/-- The idle periodic task that has been told to stop ends, and wakes those who wait for that. -/
theorem stopBackground (h : Follows up x (some .background) s t)
    (hfree : ∀ m ∈ s.timers, m.actor ≠ .background) (hb : s.world.background = .idle)
    (hstopping : s.world.stopping = true) :
    ∃ u, Follows up x none (s.step .backgroundStop).wakeClearing u := by
  have hstop := h.ownStep hfree (e := .backgroundStop) rfl rfl
  refine ⟨_, hstop.wakeClearing.release ?_⟩
  rw [world_wakeClearing]
  refine World.not_asks_background fun w hw ↦ ?_
  simp [Session.step, World.step, hb, hstopping] at hw

/-- The idle periodic task looks around, and stops, sweeps or waits. -/
theorem idleBackground (n : Nat) (h : Follows up x (some .background) s t)
    (hidle : ¬ s.world.Asks .background) (hfree : ∀ m ∈ s.timers, m.actor ≠ .background) :
    ∃ u, Follows up x none (idleBackground n s) u := by
  induction n generalizing s t with
  | zero => exact ⟨t, h.release hidle⟩
  | succ n ih =>
    have hnow : s.now = x.now := congrArg Terms.now h.terms
    have hlatency : s.latency = x.latency := congrArg Terms.latency h.terms
    rw [Session.idleBackground]
    split
    · rename_i hb
      split
      · rename_i hstopping
        exact h.stopBackground hfree hb hstopping
      · split
        · have htick := (h.ownStep hfree (e := .tick []) rfl rfl).adjust (fun _ hy ↦ hy)
            (s.nextTick + s.period) s.clock
          have hasked : (t.event x.behaviour (.tick [])).asked .background = x.now :=
            h.asked_event (Or.inr hidle)
          dsimp only
          split
          · rename_i w hw
            have hbound : ∀ w', (s.step (.tick [])).world.background = .sweeping w' →
                sweepQuestionsLeft w' ≤ sweepQuestionsLeft w := by
              intro w' hw'
              cases hw.symm.trans hw'
              exact Nat.le_refl _
            split
            · rename_i hzero
              obtain ⟨u, hu, hasks, hfree'⟩ := htick.answerBackground (hlatency.symm.trans hzero)
                (sweepQuestionsLeft w) hbound (fun _ ↦ hasked) hfree
              exact ih hu hasks hfree'
            · rename_i hzero
              exact ⟨_, htick.wait (fun h ↦ hzero (hlatency.trans h)) (fun _ ↦ hasked)
                fun _ ↦ Actor.noConfusion⟩
          · rename_i hother
            exact ih htick (World.not_asks_background hother) hfree
        · rename_i hearly
          refine ⟨t, h.setTimer ?_ (fun hasks ↦ absurd hasks hidle) fun _ ↦ Actor.noConfusion⟩
          rw [← hnow]
          exact Nat.lt_of_not_le hearly
    · refine ⟨t, h.wakeClearing.release ?_⟩
      rwa [world_wakeClearing]
    · exact ⟨t, h.release hidle⟩

/-- **The periodic task runs**, answered if it has asked. -/
theorem runBackground (h : Follows up x (some .background) s t)
    (hdue : s.world.Asks .background →
      x.latency ≠ 0 ∧ x.now = t.asked .background + x.latency) :
    ∃ u, Follows up x none s.runBackground u := by
  have hdropped : Follows up x (some .background) (s.dropTimers .background) t :=
    h.dropTimers fun _ ↦ rfl
  have hfree : ∀ m ∈ (s.dropTimers .background).timers, m.actor ≠ .background :=
    fun m hm ↦ by simpa using (List.mem_filter.1 hm).2
  have hbackground : (s.dropTimers .background).world.background = s.world.background := rfl
  simp only [Session.runBackground, hbackground]
  split
  · rename_i hb
    exact ⟨t, hdropped.release (World.not_asks_background fun w hw ↦ nomatch hb.symm.trans hw)⟩
  · rename_i hb
    exact hdropped.idleBackground _
      (World.not_asks_background fun w hw ↦ nomatch hb.symm.trans hw) hfree
  · rename_i hb
    refine ⟨t, hdropped.wakeClearing.release ?_⟩
    rw [world_wakeClearing]
    exact World.not_asks_background fun w hw ↦ nomatch hb.symm.trans hw
  · rename_i w hw
    have hasks : s.world.Asks .background := World.asks_background.2 ⟨w, hw⟩
    obtain ⟨hstep, hnow⟩ := hdropped.answer (e := .backgroundAnswer s.source) rfl
      (fun hasks ↦ (hdue hasks).2) hfree
    split
    · exact ⟨_, hstep.wait (hdue hasks).1 (fun _ ↦ hnow) fun _ hid ↦ nomatch hid⟩
    · rename_i hb
      exact hstep.idleBackground _ (World.not_asks_background hb) hfree

/-! ### Calls -/

/-- A clearing call breaks the periodic task off, and wakes it to notice. -/
theorem graceOver {id : CallId} {order : List String}
    (h : Follows up x (some (.call id)) s t) (htask : s.world.task? id = some (.clear order)) :
    ∃ u, Follows up x none
      (((s.step (.graceOver id)).dropTimers .background).wake .background) u := by
  have hworld : (s.step (.graceOver id)).world = { s.world with background := .ended } := by
    simp only [Session.step, World.step, htask]
  have htask' : (s.step (.graceOver id)).world.task? id = some (.clear order) := hworld ▸ htask
  have hended : ¬ (s.step (.graceOver id)).world.Asks .background := by
    refine World.not_asks_background fun w hw ↦ ?_
    rw [hworld] at hw
    cases hw
  have hstep : Follows up x (some (.call id)) (s.step (.graceOver id))
      (t.event x.behaviour (.graceOver id)) := by
    refine h.step (allows_of_answer?_none rfl) (fun a ha ↦ ha) (fun a ha hasks ↦ ?_)
      fun _ _ ↦ Event.noConfusion
    obtain rfl := Option.some.inj ha
    rw [← show s.behaviour = x.behaviour from congrArg Terms.behaviour h.terms] at hasks
    exact absurd hasks (World.not_asks_of_clear htask')
  have hwoken := (hstep.dropTimers fun hasks ↦ absurd hasks hended).wakeBackground hended
  refine ⟨_, hwoken.release ?_⟩
  rw [world_wake]
  exact World.not_asks_of_clear htask'

/-- A clearing call waits for the grace period, if there is one. -/
theorem grace {id : CallId} {order : List String} (h : Follows up x (some (.call id)) s t)
    (htask : s.world.task? id = some (.clear order)) :
    ∃ u, Follows up x none
      (if s.settings.grace = 0 then
        ((s.step (.graceOver id)).dropTimers .background).wake .background
      else s.setTimer (s.now + s.settings.grace * 1000) (.call id)) u := by
  split
  · exact h.graceOver htask
  · rename_i hgrace
    have hnow : s.now = x.now := congrArg Terms.now h.terms
    have hidle := World.not_asks_of_clear htask
    refine ⟨t, h.setTimer ?_ (fun hasks ↦ absurd hasks hidle) fun _ hid ↦ ?_⟩
    · omega
    · exact Actor.call.inj hid ▸ World.knows_of_task? htask

/-- A clearing call wakes the periodic task, if it is idle, to tell it to stop. -/
theorem arrange_clear {id : CallId} {order : List String}
    (h : Follows up x (some (.call id)) s t) (htask : s.world.task? id = some (.clear order)) :
    ∃ u, Follows up x none (s.arrange id) u := by
  rcases hb : s.world.background with - | - | w | - <;> simp only [Session.arrange, htask, hb]
  · exact h.grace htask
  · have hidle := World.not_asks_background fun w hw ↦ nomatch hb.symm.trans hw
    exact (h.wakeBackground hidle).grace (world_wake s _ ▸ htask)
  · exact h.grace htask
  · exact h.grace htask

/-- A call that has just come to wait does so. -/
theorem arrange {id : CallId} (h : Follows up x (some (.call id)) s t)
    (hasked : s.world.Asks (.call id) → t.asked (.call id) = x.now)
    (hfree : s.world.Asks (.call id) → ∀ m ∈ s.timers, m.actor ≠ .call id) :
    ∃ u, Follows up x none (s.arrange id) u := by
  rcases htask : s.world.task? id with - | task
  · rw [Session.arrange, htask]
    exact ⟨t, h.release (World.not_asks_of_none htask)⟩
  · by_cases hclear : ∃ order, task = .clear order
    · obtain ⟨order, rfl⟩ := hclear
      exact h.arrange_clear htask
    · have hasks : s.world.Asks (.call id) :=
        World.asks_call.2 ⟨task, htask, fun order ho ↦ hclear ⟨order, ho⟩⟩
      have harrange : s.arrange id =
          if s.latency = 0 then Session.answerAll id (taskQuestionsLeft task) s
          else s.setTimer (s.now + s.latency) (.call id) := by
        rw [Session.arrange, htask]
        cases task with
        | refresh | sweep | schema => rfl
        | clear order => exact absurd ⟨order, rfl⟩ hclear
      have hlatency : s.latency = x.latency := congrArg Terms.latency h.terms
      rw [harrange]
      split
      · rename_i hzero
        obtain ⟨u, hu, hnot⟩ := h.answerAll (hlatency.symm.trans hzero) (taskQuestionsLeft task)
          (fun task' ht' _ ↦ Nat.le_of_eq (by cases htask.symm.trans ht'; rfl)) hasked
          (hfree hasks)
        exact ⟨u, hu.release hnot⟩
      · rename_i hzero
        exact ⟨t, h.wait (fun hx ↦ hzero (hlatency.trans hx)) hasked
          fun _ hid ↦ Actor.call.inj hid ▸ World.knows_of_task? htask⟩

/-- **A call is made**, and waits unless it returns at once. -/
theorem make {id : CallId} (h : Follows up x (some (.call id)) s t) (op : Operation)
    (hnew : ¬ s.world.knows id) (hid : id < x.nextId) (hstarted : ∀ y ∈ s.started, y.1 ≠ id) :
    ∃ u, Follows up x none (s.make id op) u := by
  have hnone : s.world.task? id = none := by
    rcases htask : s.world.task? id with - | task
    · rfl
    · exact absurd (World.knows_of_task? htask) hnew
  have hfree : ∀ m ∈ s.timers, m.actor ≠ .call id := fun m hm hma ↦
    hnew ((h.timed m hm).2.2 id hma)
  have hstep : Follows up x (some (.call id)) (s.step (.call id op))
      (t.event x.behaviour (.call id op)) := by
    refine h.step (allows_of_answer?_none rfl) (fun a ha ↦ ha)
      (fun a ha _ ↦ Option.some.inj ha ▸ hfree) fun id' op' he ↦ ?_
    cases he
    exact ⟨hid, hstarted⟩
  have hasked : (t.event x.behaviour (.call id op)).asked (.call id) = x.now :=
    h.asked_event (Or.inr (World.not_asks_of_none hnone))
  simp only [Session.make]
  split
  · rename_i hb
    have hidle := World.not_asks_background fun w hw ↦ nomatch hb.symm.trans hw
    have hwoken := (hstep.adjust (fun _ hy ↦ hy) s.now s.clock).wakeBackground hidle
    refine hwoken.arrange (fun _ ↦ hasked) fun _ ↦ ?_
    rw [timers_wake]
    exact hfree
  · exact hstep.arrange (fun _ ↦ hasked) fun _ ↦ hfree

/-- A clearing call that notices that the periodic task has ended goes on. -/
theorem proceed {id : CallId} {order : List String} (h : Follows up x (some (.call id)) s t)
    (htask : s.world.task? id = some (.clear order)) (hended : s.world.background = .ended) :
    ∃ u, Follows up x none ((s.dropTimers (.call id)).step (.proceed id)) u := by
  have hnone : (s.world.step x.behaviour (.proceed id)).task? id = none := by
    simp only [World.step, htask, hended, World.finishClear, World.task?_finish, if_true]
  have hidle := World.not_asks_of_none hnone
  have hstep : Follows up x (some (.call id)) ((s.dropTimers (.call id)).step (.proceed id))
      (t.event x.behaviour (.proceed id)) :=
    (h.dropTimers fun _ ↦ rfl).step (allows_of_answer?_none rfl) (fun a ha ↦ ha)
      (fun a ha hasks ↦ absurd hasks (Option.some.inj ha ▸ hidle)) fun _ _ ↦ Event.noConfusion
  refine ⟨_, hstep.release ?_⟩
  show ¬ World.Asks (s.world.step s.behaviour (.proceed id)) (.call id)
  rw [show s.behaviour = x.behaviour from congrArg Terms.behaviour h.terms]
  exact hidle

/-- **A call runs**, answered if it has asked. -/
theorem runCall {id : CallId} (h : Follows up x (some (.call id)) s t)
    (hdue : s.world.Asks (.call id) → x.now = t.asked (.call id) + x.latency) :
    ∃ u, Follows up x none (s.runCall id) u := by
  rw [Session.runCall]
  split
  · rename_i op hop
    have hmem : (id, op) ∈ s.started := by
      obtain ⟨l₁, l₂, hl, -⟩ := List.lookup_eq_some_iff.1 hop
      rw [hl]
      exact List.mem_append_right _ List.mem_cons_self
    obtain ⟨hnew, hid⟩ := h.started _ hmem
    have hpopped := h.adjust (fun y (hy : y ∈ s.started.filter (·.1 ≠ id)) ↦
      (List.mem_filter.1 hy).1) s.nextTick s.clock
    exact hpopped.make op hnew hid fun y hy ↦ by simpa using (List.mem_filter.1 hy).2
  · split
    · rename_i htask
      exact ⟨t, h.release (World.not_asks_of_none htask)⟩
    · rename_i order htask
      split
      · rename_i hended
        exact h.proceed htask hended
      · exact h.graceOver htask
    · rename_i task hclear htask
      have hasks : s.world.Asks (.call id) := World.asks_call.2 ⟨task, htask, hclear⟩
      -- A timer that was set for the answer would not have gone off yet.
      have hfree : ∀ m ∈ s.timers, m.actor ≠ .call id := by
        intro m hm hma
        obtain ⟨hlater, hwhen, -⟩ := h.timed m hm
        rw [hma] at hwhen
        have hdue' := hdue hasks
        have hwhen' := hwhen hasks
        omega
      obtain ⟨hstep, hnow⟩ := h.answer (e := .answer id s.source) rfl hdue hfree
      exact hstep.arrange (fun _ ↦ hnow) fun _ ↦ hfree

/-- **An actor runs.** -/
theorem runActor (h : Follows up x (some a) s t)
    (hdue : s.world.Asks a → x.latency ≠ 0 ∧ x.now = t.asked a + x.latency) :
    ∃ u, Follows up x none (s.runActor a) u := by
  cases a with
  | call id => exact h.runCall fun hasks ↦ (hdue hasks).2
  | background => exact h.runBackground hdue

/-- **A turn.** The first in the line runs. -/
theorem turnLine (h : Follows up x none s t) {line : List Actor} (hline : s.line = a :: line) :
    ∃ u, Follows up x none ({ s with line }.runActor a) u :=
  (h.pop (h.single.popLine hline) fun _ ↦ ready_popLine h.single hline).runActor
    (h.due (Or.inl (hline ▸ List.mem_cons_self)))

/-- The awaited call has its turn. -/
theorem turnAwaited (h : Follows up x none s t) {id : CallId} (hid : s.awaited = some id)
    (hready : s.awaitedReady = true) :
    ∃ u, Follows up x none ({ s with awaitedReady := false }.runCall id) u := by
  have hawaited : s.Ready (.call id) := Or.inr ⟨hready, by rw [hid]; rfl⟩
  exact (h.pop h.single.popAwaited fun _ ↦ ready_popAwaited h.single hid).runCall
    fun hasks ↦ (h.due hawaited hasks).2

end Follows

end Session

end StoreCache
