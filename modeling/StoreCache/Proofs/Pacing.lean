import StoreCache.Proofs.Rhythm
import StoreCache.Proofs.Turns

/-!
# Pacing

What a session does to its world is what may happen at a pulse (`Session.Paced`). Its means are
timers and turns again: **an idle task can run, or it has a timer for its next tick**
(`Session.Alert`). A call to clear the cache has told the task to stop and not woken it yet, and a
task that runs has given its timers up, but either sees to the other before its turn is over.

An idle task that runs makes up for the ticks it has missed, one run for each, until no tick is due
or a run takes time. That is a loop with a bound on the number of looks, and the bound is large
enough: every look but the last leaves one tick less (`Session.Paced.idleBackground`).
-/

namespace StoreCache

namespace World

variable {b : Behaviour} {w : World} {id : CallId}

/-- A call to clear the cache waits, if there is a task to wait for. -/
theorem task?_step_clear (order : List String) (hnew : w.knows id = false)
    (hphase : w.cache.phase ≠ .cleared) (hpresent : w.background ≠ .absent) :
    (w.step b (.call id (.clear order))).task? id = some (.clear order) := by
  rw [step_call hnew, call, if_neg hphase]
  rcases hb : w.background with - | - | v | -
  · exact absurd hb hpresent
  all_goals exact (task?_wait _ _ _ _).trans (if_pos rfl)

/-- An answer to a call leaves the periodic task alone. -/
theorem background_step_answer (w : World) (id : CallId) (source : Source) :
    (w.step b (.answer id source)).background = w.background ∧
      (w.step b (.answer id source)).stopping = w.stopping := by
  rw [step]
  split
  · exact ⟨background_answer w id source _, stopping_answer w id source _⟩
  · exact ⟨rfl, rfl⟩

end World

namespace Session

variable {b : Behaviour} {p now : Nat} {start : Pulse} {s u : Session} {e : Event} {a : Actor}
  {id : CallId} {order : List String}

/-! ### Sessions at pulses -/

/-- A session has come to a pulse. -/
structure AtPulse (s : Session) (x : Pulse) : Prop where
  world : x.world = s.world
  now : x.now = s.now
  nextTick : x.nextTick = s.nextTick

/-- **A session goes from pulse to pulse**: what has happened since `start` is what may happen to
the periodic task. -/
structure Paced (b : Behaviour) (p : Nat) (start : Pulse) (now : Nat) (s : Session) : Prop where
  reached : ∃ x, Pulse.Reached b p start x ∧ s.AtPulse x
  ran : ∃ tracks clock events, s.world = (World.new tracks clock).run b events
  behaviour : s.behaviour = b
  period : s.period = p
  periodPos : 0 < p
  now : s.now = now
  single : s.Single
  distinct : s.world.Distinct

/-- **Nobody keeps the idle task waiting.** It can run, or it has a timer for its next tick, which
is not due yet. -/
def Alert (s : Session) : Prop :=
  s.world.background = .idle → s.Ready .background ∨
    s.world.stopping = false ∧ s.now < s.nextTick ∧ ⟨s.nextTick, .background⟩ ∈ s.timers

/-- A session keeps the rhythm. -/
structure Ticking (b : Behaviour) (p : Nat) (start : Pulse) (now : Nat) (s : Session) : Prop where
  paced : s.Paced b p start now
  alert : s.Alert

/-- What the rhythm depends on. -/
def pace (s : Session) : Behaviour × CacheSettings × World × Nat × Nat :=
  (s.behaviour, s.settings, s.world, s.now, s.nextTick)

theorem alert_of_ne (h : s.world.background ≠ .idle) : s.Alert := fun hidle ↦ absurd hidle h

theorem Alert.congr (h : s.Alert) (hpace : u.pace = s.pace)
    (hready : s.Ready .background → u.Ready .background)
    (htimers : ∀ d, ⟨d, .background⟩ ∈ s.timers → ⟨d, .background⟩ ∈ u.timers) : u.Alert := by
  simp only [pace, Prod.mk.injEq] at hpace
  obtain ⟨-, -, hworld, hnow, hnext⟩ := hpace
  unfold Alert
  rw [hworld, hnow, hnext]
  exact fun hidle ↦ (h hidle).imp hready fun ⟨hgoing, hlater, htimer⟩ ↦
    ⟨hgoing, hlater, htimers _ htimer⟩

/-- Something happens, and the task is as idle as before. -/
theorem Alert.step (h : s.Alert) (hidle : (s.step e).world.background = .idle →
    s.world.background = .idle ∧ (s.step e).world.stopping = s.world.stopping) :
    (s.step e).Alert := by
  intro hafter
  obtain ⟨hbefore, hstopping⟩ := hidle hafter
  rw [hstopping]
  exact h hbefore

theorem Alert.wakeAll (h : s.Alert) (l : List Actor) : (s.wakeAll l).Alert := by
  have hready : s.Ready .background → (s.wakeAll l).Ready .background :=
    fun hr ↦ ready_wakeAll.2 (Or.inl hr)
  obtain ⟨line, awaitedReady, hwake⟩ := wakeAll_eq s l
  rw [hwake] at hready ⊢
  exact h.congr rfl hready fun _ ↦ id

theorem Alert.setTimer (h : s.Alert) (due : Nat) (a : Actor) : (s.setTimer due a).Alert :=
  h.congr rfl id fun _ ↦ List.mem_append_left _

/-- The task is woken. -/
theorem alert_wake (s : Session) : (s.wake .background).Alert :=
  fun _ ↦ Or.inl (ready_wake.2 (Or.inr rfl))

namespace Paced

theorem congr (h : s.Paced b p start now) (hpace : u.pace = s.pace) (hsingle : u.Single) :
    u.Paced b p start now := by
  simp only [pace, Prod.mk.injEq] at hpace
  obtain ⟨hbehaviour, hsettings, hworld, hnow, hnext⟩ := hpace
  obtain ⟨x, hx, hat⟩ := h.reached
  exact
    { reached := ⟨x, hx, hat.world.trans hworld.symm, hat.now.trans hnow.symm,
        hat.nextTick.trans hnext.symm⟩
      ran := hworld ▸ h.ran
      behaviour := hbehaviour.trans h.behaviour
      period := by rw [Session.period, hsettings]; exact h.period
      periodPos := h.periodPos
      now := hnow.trans h.now
      single := hsingle
      distinct := hworld ▸ h.distinct }

/-- **Something happens**, and when the next tick is due is set accordingly. -/
theorem event (h : s.Paced b p start now) (nextTick : Nat)
    (hdue : s.world.beginsRun e = true → s.nextTick ≤ s.now)
    (hnext : nextTick = if s.world.Spawns e then s.now
      else if s.world.beginsRun e then s.nextTick + p else s.nextTick) :
    Paced b p start now { s.step e with nextTick } := by
  obtain ⟨x, hx, hat⟩ := h.reached
  obtain ⟨tracks, clock, events, hworld⟩ := h.ran
  have hstep : (s.step e).world = s.world.step b e := by rw [← h.behaviour]; rfl
  rw [← hat.world, ← hat.now, ← hat.nextTick] at hdue hnext
  exact
    { reached := ⟨x.event b p e, hx.event hdue, by rw [Pulse.event, hat.world, hstep], hat.now,
        hnext.symm⟩
      ran := ⟨tracks, clock, events ++ [e], by rw [hstep, World.run_concat, ← hworld]⟩
      behaviour := h.behaviour
      period := h.period
      periodPos := h.periodPos
      now := h.now
      single := h.single.congr rfl
      distinct := by rw [hstep]; exact h.distinct.step e }

/-- Something happens that spawns no task and begins no run. -/
theorem step (h : s.Paced b p start now) (hspawns : ¬ s.world.Spawns e)
    (hbegins : s.world.beginsRun e = false) : (s.step e).Paced b p start now := by
  refine h.event s.nextTick (fun h ↦ ?_) ?_
  · rw [hbegins] at h
    cases h
  · rw [if_neg hspawns, hbegins]
    rfl

/-- Something happens that is no call and begins no run. -/
theorem step_of_ne (h : s.Paced b p start now) (he : ∀ id op, e ≠ .call id op)
    (hbegins : s.world.beginsRun e = false) : (s.step e).Paced b p start now :=
  h.step (World.not_spawns_of_ne he) hbegins

theorem wakeAll (h : s.Paced b p start now) (l : List Actor) :
    (s.wakeAll l).Paced b p start now := by
  have hsingle := h.single.wakeAll l
  obtain ⟨line, awaitedReady, hwake⟩ := wakeAll_eq s l
  rw [hwake] at hsingle ⊢
  exact h.congr rfl hsingle

theorem wakeClearing (h : s.Paced b p start now) : s.wakeClearing.Paced b p start now := by
  rw [wakeClearing_eq]
  exact h.wakeAll _

theorem setTimer (h : s.Paced b p start now) (due : Nat) (a : Actor) :
    (s.setTimer due a).Paced b p start now :=
  h.congr rfl (h.single.congr rfl)

theorem dropTimers (h : s.Paced b p start now) (a : Actor) :
    (s.dropTimers a).Paced b p start now :=
  h.congr rfl (h.single.congr rfl)

/-! ### The periodic task -/

theorem answerBackground (h : s.Paced b p start now) (n : Nat) :
    (answerBackground n s).Paced b p start now ∧
      (Session.answerBackground n s).nextTick = s.nextTick := by
  induction n generalizing s with
  | zero => exact ⟨h, rfl⟩
  | succ n ih =>
    rw [Session.answerBackground]
    split
    · exact ih (h.step_of_ne (fun _ _ ↦ Event.noConfusion) rfl)
    · exact ⟨h, rfl⟩

/-- The task has ended, and those are woken who wait for that. -/
theorem ticking_of_ended (h : s.Paced b p start now) (hended : s.world.background = .ended) :
    s.wakeClearing.Ticking b p start now := by
  refine ⟨h.wakeClearing, alert_of_ne ?_⟩
  rw [world_wakeClearing, hended]
  exact Background.noConfusion

/-- **The idle task looks around.** It stops if it has been told to, whether a tick is due or not;
else it begins a run if a tick is due, and waits for the next tick if not. -/
theorem look (n : Nat) (h : s.Paced b p start now)
    (hrest : s.nextTick ≤ s.now → ∀ u : Session, u.Paced b p start now →
      u.nextTick = s.nextTick + p → (idleBackground n u).Ticking b p start now) :
    (idleBackground (n + 1) s).Ticking b p start now := by
  rw [idleBackground]
  split
  · rename_i hidle
    split
    · rename_i hstopping
      have hended : (s.step .backgroundStop).world.background = .ended := by
        simp only [Session.step, World.step, hidle, hstopping, if_true]
      exact (h.step_of_ne (fun _ _ ↦ Event.noConfusion) rfl).ticking_of_ended hended
    · rename_i hstopping
      have hgoing : s.world.stopping = false := Bool.eq_false_iff.2 hstopping
      split
      · rename_i hdue
        have hbegins : s.world.beginsRun (.tick []) = true :=
          World.beginsRun_iff.2 ⟨⟨[], rfl⟩, hidle, hgoing⟩
        have hticked : Paced b p start now
            { s.step (.tick []) with nextTick := s.nextTick + s.period } := by
          refine h.event _ (fun _ ↦ hdue) ?_
          rw [if_neg (World.not_spawns_of_ne fun _ _ ↦ Event.noConfusion), if_pos hbegins, h.period]
        have hnext : s.nextTick + s.period = s.nextTick + p := by rw [h.period]
        dsimp only
        split
        · rename_i w hw
          split
          · obtain ⟨hanswered, hsame⟩ := hticked.answerBackground (sweepQuestionsLeft w)
            exact hrest hdue _ hanswered (hsame.trans hnext)
          · refine ⟨hticked.setTimer _ _, alert_of_ne ?_⟩
            show (s.step (.tick [])).world.background ≠ .idle
            rw [hw]
            exact Background.noConfusion
        · exact hrest hdue _ hticked hnext
      · rename_i hearly
        exact ⟨h.setTimer _ _, fun _ ↦ Or.inr ⟨hgoing, Nat.lt_of_not_le hearly,
          List.mem_append_right _ List.mem_cons_self⟩⟩
  · rename_i hended
    exact h.ticking_of_ended hended
  · rename_i hidle _
    exact ⟨h, alert_of_ne hidle⟩

/-- **The idle task makes up for every tick that is due.** -/
theorem idleBackground (m : Nat) (h : s.Paced b p start now)
    (hticks : s.now < s.nextTick + m * p) :
    (idleBackground (m + 1) s).Ticking b p start now := by
  induction m generalizing s with
  | zero =>
    refine h.look 0 fun hdue ↦ ?_
    omega
  | succ m ih =>
    refine h.look (m + 1) fun _ u hu hnext ↦ ih hu ?_
    rw [hu.now, ← h.now, hnext, Nat.add_assoc, Nat.add_comm p, ← Nat.succ_mul]
    exact hticks

theorem idleBackground_ticksDue (h : s.Paced b p start now) :
    (Session.idleBackground s.ticksDue s).Ticking b p start now := by
  rw [ticksDue, h.period]
  refine h.idleBackground _ ?_
  have hdiv := Nat.lt_div_mul_add (a := s.now - s.nextTick) h.periodPos
  rw [Nat.add_mul]
  omega

/-- **The periodic task runs.** -/
theorem runBackground (h : s.Paced b p start now) : s.runBackground.Ticking b p start now := by
  have hdropped := h.dropTimers .background
  simp only [Session.runBackground]
  generalize s.dropTimers .background = v at hdropped
  split
  · rename_i habsent
    exact ⟨hdropped, alert_of_ne (habsent ▸ Background.noConfusion)⟩
  · exact hdropped.idleBackground_ticksDue
  · rename_i hended
    exact hdropped.ticking_of_ended hended
  · have hanswered : (v.step (.backgroundAnswer v.source)).Paced b p start now :=
      hdropped.step_of_ne (fun _ _ ↦ Event.noConfusion) rfl
    split
    · rename_i w hw
      refine ⟨hanswered.setTimer _ _, alert_of_ne ?_⟩
      show (v.step (.backgroundAnswer v.source)).world.background ≠ .idle
      rw [hw]
      exact Background.noConfusion
    · exact hanswered.idleBackground_ticksDue

/-! ### Calls -/

/-- A clearing call breaks the task off, and wakes it to notice. -/
theorem graceOver (h : s.Paced b p start now) (id : CallId) :
    (((s.step (.graceOver id)).dropTimers .background).wake .background).Ticking b p start now := by
  have hstep : (s.step (.graceOver id)).Paced b p start now :=
    h.step_of_ne (fun _ _ ↦ Event.noConfusion) rfl
  exact ⟨(hstep.dropTimers _).wakeAll [.background], alert_wake _⟩

/-- A clearing call wakes the idle task, to tell it to stop. -/
theorem arrange_clear (h : s.Paced b p start now)
    (htask : s.world.task? id = some (.clear order)) : (s.arrange id).Ticking b p start now := by
  have hgrace : ∀ v : Session, v.Ticking b p start now →
      (if v.settings.grace = 0 then
        ((v.step (.graceOver id)).dropTimers .background).wake .background
      else v.setTimer (v.now + v.settings.grace * 1000) (.call id)).Ticking b p start now := by
    intro v hv
    split
    · exact hv.paced.graceOver id
    · exact ⟨hv.paced.setTimer _ _, hv.alert.setTimer _ _⟩
  rcases hb : s.world.background with - | - | w | - <;> simp only [Session.arrange, htask, hb]
  · exact hgrace s ⟨h, alert_of_ne (hb ▸ Background.noConfusion)⟩
  · exact hgrace _ ⟨h.wakeAll [.background], alert_wake s⟩
  · exact hgrace s ⟨h, alert_of_ne (hb ▸ Background.noConfusion)⟩
  · exact hgrace s ⟨h, alert_of_ne (hb ▸ Background.noConfusion)⟩

end Paced

namespace Ticking

theorem answer (h : s.Ticking b p start now) (id : CallId) (source : Source) :
    (s.step (.answer id source)).Ticking b p start now := by
  obtain ⟨hbackground, hstopping⟩ :=
    World.background_step_answer (b := s.behaviour) s.world id source
  exact ⟨h.paced.step_of_ne (fun _ _ ↦ Event.noConfusion) rfl,
    h.alert.step fun hidle ↦ ⟨hbackground.symm.trans hidle, hstopping⟩⟩

theorem answerAll (h : s.Ticking b p start now) (id : CallId) (n : Nat) :
    (answerAll id n s).Ticking b p start now := by
  induction n generalizing s with
  | zero => exact h
  | succ n ih =>
    rw [Session.answerAll]
    split
    · exact h
    · exact ih (h.answer id _)
    · exact h

/-- A call that has just come to wait does so. -/
theorem arrange (h : s.Ticking b p start now) (id : CallId) :
    (s.arrange id).Ticking b p start now := by
  rcases htask : s.world.task? id with - | task
  · rw [Session.arrange, htask]
    exact h
  · cases task with
    | clear order => exact h.paced.arrange_clear htask
    | refresh | sweep | schema =>
      rw [Session.arrange, htask]
      dsimp only
      split
      · exact h.answerAll id _
      · exact ⟨h.paced.setTimer _ _, h.alert.setTimer _ _⟩

end Ticking

/-- **A call is made**, and the first tick is due at once if it spawns the task. -/
theorem Ticking.make (h : s.Ticking b p start now) (id : CallId) (op : Operation) :
    (s.make id op).Ticking b p start now := by
  obtain ⟨tracks, clock, events, hworld⟩ := h.paced.ran
  have hgated := World.gated_of_run b tracks clock events
  rw [← hworld] at hgated
  have hstep : (s.step (.call id op)).world = s.world.step b (.call id op) := by
    rw [← h.paced.behaviour]
    rfl
  simp only [Session.make]
  split
  · rename_i habsent hidle
    have hspawns : s.world.Spawns (.call id op) := by
      by_contra hspawns
      rw [hstep, World.background_step_of_absent hspawns habsent (hgated.waits habsent)] at hidle
      cases hidle
    have hspawned : Paced b p start now { s.step (.call id op) with nextTick := s.now } :=
      h.paced.event s.now (fun hbegins ↦ absurd hbegins Bool.false_ne_true) (if_pos hspawns).symm
    exact Ticking.arrange ⟨hspawned.wakeAll [.background], alert_wake _⟩ id
  · rename_i hother
    have hspawns : ¬ s.world.Spawns (.call id op) := fun hspawns ↦ by
      obtain ⟨_, -, -, hopened⟩ := World.step_of_spawns (b := b) hspawns
      refine hother (hgated.absent_of_spawns hspawns) ?_
      rw [hstep, hopened]
      rfl
    have hstepped : (s.step (.call id op)).Paced b p start now := h.paced.step hspawns rfl
    have hsame : (s.step (.call id op)).world.background = s.world.background := by
      rw [hstep]
      exact World.background_step_call hspawns
    rcases World.stopping_step (b := b) s.world (.call id op) with
      hstopping | ⟨-, _, order, he, hnew, hphase⟩
    · refine Ticking.arrange ⟨hstepped, h.alert.step fun hidle ↦ ⟨hsame.symm.trans hidle, ?_⟩⟩ id
      rw [hstep]
      exact hstopping
    · cases he
      by_cases habsent : s.world.background = .absent
      · refine Ticking.arrange ⟨hstepped, alert_of_ne ?_⟩ id
        rw [hsame, habsent]
        exact Background.noConfusion
      · have hwaits : (s.step (.call id (.clear order))).world.task? id = some (.clear order) := by
          rw [hstep]
          exact World.task?_step_clear order hnew hphase habsent
        exact hstepped.arrange_clear hwaits

/-- **A call runs.** -/
theorem Ticking.runCall (h : s.Ticking b p start now) (id : CallId) :
    (s.runCall id).Ticking b p start now := by
  rw [Session.runCall]
  split
  · rename_i op _
    have hpopped : Ticking b p start now { s with started := s.started.filter (·.1 ≠ id) } :=
      ⟨h.paced.congr rfl (h.paced.single.congr rfl),
        h.alert.congr rfl (fun hr ↦ hr) fun _ hm ↦ hm⟩
    exact hpopped.make id op
  · split
    · exact h
    · split
      · rename_i hended
        have hstep : ((s.dropTimers (.call id)).step (.proceed id)).Paced b p start now :=
          (h.paced.dropTimers _).step_of_ne (fun _ _ ↦ Event.noConfusion) rfl
        refine ⟨hstep, alert_of_ne ?_⟩
        have hafter : (s.world.step s.behaviour (.proceed id)).background = .ended :=
          World.background_step_of_ended (World.not_spawns_of_ne fun _ _ ↦ Event.noConfusion) hended
        show (s.world.step s.behaviour (.proceed id)).background ≠ .idle
        rw [hafter]
        exact Background.noConfusion
      · exact h.paced.graceOver id
    · exact (h.answer id _).arrange id

/-! ### Turns -/

/-- Every turn keeps the rhythm. -/
theorem keptByTurns_ticking : KeptByTurns (Ticking b p start now) where
  single h := h.paced.single
  distinct h := h.paced.distinct
  line {s a line} h hline := by
    have hpopped : Paced b p start now { s with line } :=
      h.paced.congr rfl (h.paced.single.popLine hline)
    cases a with
    | background => exact hpopped.runBackground
    | call id =>
      refine Ticking.runCall ⟨hpopped, h.alert.congr rfl (fun hr ↦ ?_) fun _ hm ↦ hm⟩ id
      exact (ready_popLine h.paced.single hline).2 ⟨hr, Actor.noConfusion⟩
  awaited {s id} h hid _ := by
    have hpopped : Paced b p start now { s with awaitedReady := false } :=
      h.paced.congr rfl h.paced.single.popAwaited
    refine Ticking.runCall ⟨hpopped, h.alert.congr rfl (fun hr ↦ ?_) fun _ hm ↦ hm⟩ id
    exact (ready_popAwaited h.paced.single hid).2 ⟨hr, Actor.noConfusion⟩

end Session

end StoreCache
