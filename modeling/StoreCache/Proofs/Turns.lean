import StoreCache.Proofs.Running

/-!
# The turns of an instant

Draining an instant is bounded by a number of turns, and this module shows that the number is large
enough: when an instant has been settled, **nobody can run any more** (`KeptByTurns.settle`).

What makes it so is a potential, the `load`. Every actor that can run weighs one, and so does every
clearing call that is still to be told of the end of the periodic task; a call that has not been
made weighs as much as it may bring in by being made; and the periodic task has weight until it has
ended. Whoever runs makes the load less: waking others is paid for by what the waker loses.
-/

namespace StoreCache

namespace Session

variable {s : Session} {a : Actor}

/-- Nobody can run. -/
structure Rest (s : Session) : Prop where
  line : s.line = []
  awaited : s.awaitedReady = false

/-- The clearing calls that are not about to run. -/
def asleep (s : Session) : Nat := s.world.clearing.countP fun id ↦ ¬ s.Ready (.call id)

/-- What the periodic task weighs. -/
def weight : Background → Nat
  | .ended => 0
  | _ => 3

/-- An upper bound for the turns that are to come in an instant. -/
def load (s : Session) : Nat :=
  s.line.length + s.awaitedReady.toNat + 8 * s.started.length + weight s.world.background + s.asleep

theorem load_le_turns (s : Session) : s.load ≤ s.turns := by
  have hclearing : s.world.clearing.length ≤ s.world.tasks.length :=
    List.length_filterMap_le _ _
  have hasleep : s.asleep ≤ s.world.clearing.length := List.countP_le_length
  have hready : s.awaitedReady.toNat ≤ 1 := Bool.toNat_le s.awaitedReady
  have hweight : weight s.world.background ≤ 3 := by
    rcases s.world.background with - | - | w | - <;> exact Nat.le_of_ble_eq_true rfl
  unfold load turns
  omega

/-! ### What weighs less -/

theorem countP_lt_countP {α : Type} {l : List α} {p q : α → Bool}
    (h : ∀ y ∈ l, q y = true → p y = true) {y : α} (hy : y ∈ l) (hp : p y = true)
    (hq : q y = false) : l.countP q < l.countP p := by
  induction l with
  | nil => cases hy
  | cons z l ih =>
    have htail : ∀ y ∈ l, q y = true → p y = true := fun y hy ↦ h y (List.mem_cons_of_mem z hy)
    rw [List.countP_cons, List.countP_cons]
    rcases List.mem_cons.1 hy with rfl | hmem
    · have hle := List.countP_mono_left htail
      simp only [hp, hq, if_true, Bool.false_eq_true, if_false]
      omega
    · have hlt := ih htail hmem
      have hz := h z List.mem_cons_self
      by_cases hqz : q z = true
      · simp only [hqz, hz hqz, if_true]
        omega
      · rw [if_neg hqz]
        omega

variable {u : Session}

/-- Fewer calls are asleep when there are fewer of them and more can run. -/
theorem asleep_le (hclearing : u.world.clearing.Sublist s.world.clearing)
    (hready : ∀ id, s.Ready (.call id) → u.Ready (.call id)) : u.asleep ≤ s.asleep := by
  refine Nat.le_trans hclearing.countP_le (List.countP_mono_left fun id _ hid ↦ ?_)
  simpa using fun hr ↦ (of_decide_eq_true hid) (hready id hr)

/-- A call that has been woken is not asleep any more. -/
theorem asleep_lt (hworld : u.world = s.world)
    (hready : ∀ id, s.Ready (.call id) → u.Ready (.call id)) {id : CallId}
    (hid : id ∈ s.world.clearing) (hbefore : ¬ s.Ready (.call id)) (hafter : u.Ready (.call id)) :
    u.asleep < s.asleep := by
  rw [asleep, asleep, hworld]
  refine countP_lt_countP (fun i _ hi ↦ ?_) hid (decide_eq_true hbefore)
    (decide_eq_false (not_not_intro hafter))
  simpa using fun hr ↦ (of_decide_eq_true hi) (hready i hr)

/-- An event that makes no call does not set the periodic task going again. -/
theorem weight_step (b : Behaviour) (w : World) {e : Event} (he : ∀ id op, e ≠ .call id op) :
    weight (w.step b e).background ≤ weight w.background := by
  rcases World.background_step b w e with hsame | ⟨-, id, op, hcall⟩ | ⟨hended, -⟩ | hown
  · exact Nat.le_of_eq (congrArg weight hsame)
  · exact absurd hcall (he id op)
  · rw [hended]
    exact Nat.zero_le _
  · have hweight : ∀ k, weight k ≤ 3 := fun k ↦ by
      rcases k with - | - | w | - <;> exact Nat.le_of_ble_eq_true rfl
    rcases hb : w.background with - | - | v | -
    · exact hweight _
    · exact hweight _
    · exact hweight _
    · -- A task that has ended does nothing more.
      cases e with
      | tick | backgroundAnswer | backgroundStop =>
        simp only [World.step, hb]
        exact Nat.le_refl _
      | _ => cases hown

/-- An event changes what the world weighs and nothing else. -/
theorem load_step_eq (s : Session) (e : Event) :
    (s.step e).load = s.line.length + s.awaitedReady.toNat + 8 * s.started.length +
      weight (s.step e).world.background + (s.step e).asleep :=
  rfl

theorem load_step (s : Session) {e : Event} (he : ∀ id op, e ≠ .call id op) :
    (s.step e).load ≤ s.load := by
  have hweight : weight (s.step e).world.background ≤ weight s.world.background :=
    weight_step s.behaviour s.world he
  have hclearing : (s.step e).world.clearing.Sublist s.world.clearing := by
    refine (World.clearing_step s.behaviour s.world e).resolve_right ?_
    rintro ⟨id, op, hcall, -⟩
    exact he id op hcall
  have hasleep : (s.step e).asleep ≤ s.asleep := asleep_le hclearing fun _ hr ↦ hr
  rw [load_step_eq, load]
  omega

/-! ### What waking weighs -/

theorem started_wake (s : Session) (a : Actor) : (s.wake a).started = s.started := by
  obtain ⟨line, awaitedReady, hwake⟩ := wake_eq s a
  rw [hwake]

theorem line_wake_le (s : Session) (a : Actor) :
    (s.wake a).line.length + (s.wake a).awaitedReady.toNat ≤
      s.line.length + s.awaitedReady.toNat + 1 := by
  unfold wake
  split
  · show s.line.length + 1 ≤ _
    omega
  · split
    · exact Nat.le_succ _
    · show (s.line ++ [a]).length + s.awaitedReady.toNat ≤ _
      rw [List.length_append, List.length_singleton]
      omega

theorem wake_of_ready (h : s.Single) (ha : s.Ready a) : s.wake a = s := by
  unfold wake
  split
  · rename_i hawaited
    obtain ⟨id, hid, rfl⟩ := Option.map_eq_some_iff.1 hawaited
    have hready : s.awaitedReady = true := (ha.resolve_left (h.awaited id hid)).1
    rw [← hready]
  · rename_i hawaited
    exact if_pos (ha.resolve_right fun hr ↦ hawaited hr.2)

/-- Whoever is woken weighs one. -/
theorem load_wake_le (s : Session) (a : Actor) : (s.wake a).load ≤ s.load + 1 := by
  have hline := line_wake_le s a
  have hasleep : (s.wake a).asleep ≤ s.asleep :=
    asleep_le (world_wake s a ▸ List.Sublist.refl _) fun _ hr ↦ ready_wake.2 (Or.inl hr)
  simp only [load, world_wake, started_wake]
  omega

/-- A clearing call that is woken weighs no more than asleep. -/
theorem load_wake_clearing (h : s.Single) {id : CallId} (hid : id ∈ s.world.clearing) :
    (s.wake (.call id)).load ≤ s.load := by
  by_cases hr : s.Ready (.call id)
  · exact Nat.le_of_eq (congrArg load (wake_of_ready h hr))
  · have hline := line_wake_le s (.call id)
    have hasleep : (s.wake (.call id)).asleep < s.asleep :=
      asleep_lt (world_wake s _) (fun _ hr ↦ ready_wake.2 (Or.inl hr)) hid hr
        (ready_wake.2 (Or.inr rfl))
    simp only [load, world_wake, started_wake]
    omega

theorem load_wakeClearing (h : s.Single) : s.wakeClearing.load ≤ s.load := by
  have hall : ∀ l : List CallId, (∀ id ∈ l, id ∈ s.world.clearing) →
      (s.wakeAll (l.map Actor.call)).load ≤ s.load := by
    intro l
    induction l generalizing s with
    | nil => exact fun _ ↦ Nat.le_refl _
    | cons id l ih =>
      intro hl
      have hrest : ∀ i ∈ l, i ∈ (s.wake (.call id)).world.clearing := fun i hi ↦ by
        rw [world_wake]
        exact hl i (List.mem_cons_of_mem id hi)
      exact Nat.le_trans (ih (h.wake _) hrest) (load_wake_clearing h (hl id List.mem_cons_self))
  rw [wakeClearing_eq]
  exact hall _ fun _ hid ↦ hid

/-! ### What the periodic task weighs when it runs -/

theorem load_answerBackground (n : Nat) (s : Session) : (answerBackground n s).load ≤ s.load := by
  induction n generalizing s with
  | zero => exact Nat.le_refl _
  | succ n ih =>
    rw [answerBackground]
    split
    · exact Nat.le_trans (ih _) (load_step s fun _ _ ↦ Event.noConfusion)
    · exact Nat.le_refl _

theorem Single.step (h : s.Single) (e : Event) : (s.step e).Single :=
  h.congr rfl

theorem Single.answerBackground (h : s.Single) (n : Nat) : (answerBackground n s).Single := by
  induction n generalizing s with
  | zero => exact h
  | succ n ih =>
    rw [Session.answerBackground]
    split
    · exact ih (h.step _)
    · exact h

theorem load_idleBackground (n : Nat) (h : s.Single) : (idleBackground n s).load ≤ s.load := by
  induction n generalizing s with
  | zero => exact Nat.le_refl _
  | succ n ih =>
    have hown : ∀ {e : Event}, (∀ id op, e ≠ .call id op) → (s.step e).load ≤ s.load :=
      fun he ↦ load_step s he
    have htick : (s.step (.tick [])).load ≤ s.load := hown fun _ _ ↦ Event.noConfusion
    rw [idleBackground]
    split
    · split
      · have hstop : (s.step .backgroundStop).load ≤ s.load := hown fun _ _ ↦ Event.noConfusion
        exact Nat.le_trans (load_wakeClearing (h.step _)) hstop
      · split
        · have hticked : Single { s.step (.tick []) with nextTick := s.nextTick + s.period } :=
            h.congr rfl
          dsimp only
          split
          · split
            · refine Nat.le_trans (ih (hticked.answerBackground _)) ?_
              exact Nat.le_trans (load_answerBackground _ _) htick
            · exact htick
          · exact Nat.le_trans (ih hticked) htick
        · exact Nat.le_refl _
    · exact load_wakeClearing h
    · exact Nat.le_refl _

theorem load_runBackground (h : s.Single) : s.runBackground.load ≤ s.load := by
  have hdropped : (s.dropTimers .background).Single := h.congr rfl
  have hsame : (s.dropTimers .background).load = s.load := rfl
  simp only [runBackground]
  rw [← hsame]
  generalize s.dropTimers .background = v at hdropped
  split
  · exact Nat.le_refl _
  · exact load_idleBackground _ hdropped
  · exact load_wakeClearing hdropped
  · have hanswer : (v.step (.backgroundAnswer v.source)).load ≤ v.load :=
      load_step v fun _ _ ↦ Event.noConfusion
    split
    · exact hanswer
    · exact Nat.le_trans (load_idleBackground _ (hdropped.step _)) hanswer

/-! ### What calls weigh when they run -/

theorem load_answerAll (id : CallId) (n : Nat) (s : Session) :
    (answerAll id n s).load ≤ s.load := by
  induction n generalizing s with
  | zero => exact Nat.le_refl _
  | succ n ih =>
    rw [answerAll]
    split
    · exact Nat.le_refl _
    · exact Nat.le_trans (ih _) (load_step s fun _ _ ↦ Event.noConfusion)
    · exact Nat.le_refl _

/-- A call that does not clear wakes nobody by coming to wait. -/
theorem load_arrange_of_ne {id : CallId} (h : ∀ order, s.world.task? id ≠ some (.clear order)) :
    (s.arrange id).load ≤ s.load := by
  rcases htask : s.world.task? id with - | task
  · exact Nat.le_of_eq (by rw [arrange, htask])
  · rw [arrange, htask]
    cases task with
    | clear order => exact absurd htask (h order)
    | refresh | sweep | schema =>
      dsimp only
      split
      · exact load_answerAll id _ s
      · exact Nat.le_refl _

/-- Breaking the periodic task off makes up for waking it. -/
theorem load_graceOver_le (s : Session) (id : CallId) :
    (((s.step (.graceOver id)).dropTimers .background).wake .background).load ≤ s.load + 1 :=
  Nat.le_trans (load_wake_le _ _) (Nat.succ_le_succ (load_step s fun _ _ ↦ Event.noConfusion))

theorem load_arrange_le (s : Session) (id : CallId) : (s.arrange id).load ≤ s.load + 2 := by
  by_cases hclear : ∃ order, s.world.task? id = some (.clear order)
  · obtain ⟨order, htask⟩ := hclear
    have hgrace : ∀ v : Session, v.load ≤ s.load + 1 →
        (if v.settings.grace = 0 then
          ((v.step (.graceOver id)).dropTimers .background).wake .background
        else v.setTimer (v.now + v.settings.grace * 1000) (.call id)).load ≤ s.load + 2 := by
      intro v hv
      split
      · exact Nat.le_trans (load_graceOver_le v id) (Nat.succ_le_succ hv)
      · exact Nat.le_succ_of_le hv
    rcases hb : s.world.background with - | - | w | - <;> simp only [arrange, htask, hb]
    · exact hgrace s (Nat.le_succ _)
    · exact hgrace _ (load_wake_le s _)
    · exact hgrace s (Nat.le_succ _)
    · exact hgrace s (Nat.le_succ _)
  · exact Nat.le_add_right_of_le (load_arrange_of_ne fun order ho ↦ hclear ⟨order, ho⟩)

/-- A call that is made brings in what it weighs: it may set the periodic task going, wait to clear,
and wake. -/
theorem load_call_le (s : Session) (id : CallId) (op : Operation) :
    (s.step (.call id op)).load ≤ s.load + 4 := by
  have hasleep : (s.step (.call id op)).asleep ≤ s.asleep + 1 := by
    rcases World.clearing_step s.behaviour s.world (.call id op) with hsub | ⟨i, op', -, hsub⟩
    · exact Nat.le_succ_of_le (asleep_le hsub fun _ hr ↦ hr)
    · refine Nat.le_trans hsub.countP_le ?_
      rw [List.countP_cons]
      refine Nat.add_le_add (List.countP_mono_left fun _ _ hr ↦ hr) ?_
      split <;> decide
  have hweight : weight (s.step (.call id op)).world.background ≤ 3 := by
    rcases (s.step (.call id op)).world.background with - | - | w | - <;>
      exact Nat.le_of_ble_eq_true rfl
  rw [load_step_eq, load]
  omega

theorem load_make_le (s : Session) (id : CallId) (op : Operation) :
    (s.make id op).load ≤ s.load + 7 := by
  have hcall := load_call_le s id op
  simp only [make]
  split
  · refine Nat.le_trans (load_arrange_le _ _) ?_
    refine Nat.le_trans (Nat.add_le_add_right (load_wake_le _ _) 2) ?_
    show (s.step (.call id op)).load + 1 + 2 ≤ s.load + 7
    omega
  · have harrange := load_arrange_le (s.step (.call id op)) id
    omega

/-- Breaking the periodic task off pays for waking it. -/
theorem load_graceOver_lt {id : CallId} {order : List String}
    (htask : s.world.task? id = some (.clear order)) (hb : s.world.background ≠ .ended) :
    (((s.step (.graceOver id)).dropTimers .background).wake .background).load < s.load := by
  have hworld : (s.step (.graceOver id)).world = { s.world with background := .ended } := by
    simp only [step, World.step, htask]
  have hweight : weight s.world.background = 3 := by
    rcases hbackground : s.world.background with - | - | w | -
    · rfl
    · rfl
    · rfl
    · exact absurd hbackground hb
  have hbroken : (s.step (.graceOver id)).load + 3 ≤ s.load := by
    have hasleep : (s.step (.graceOver id)).asleep ≤ s.asleep :=
      asleep_le (hworld ▸ List.Sublist.refl _) fun _ hr ↦ hr
    have hended : weight (s.step (.graceOver id)).world.background = 0 := by rw [hworld]; rfl
    rw [load_step_eq, load, hended]
    omega
  have hwake := load_wake_le ((s.step (.graceOver id)).dropTimers .background) .background
  have hsame : ((s.step (.graceOver id)).dropTimers .background).load =
      (s.step (.graceOver id)).load := rfl
  omega

/-- A call that is through with clearing was asleep, and is not any more. -/
theorem load_proceed_lt {id : CallId} {order : List String}
    (htask : s.world.task? id = some (.clear order)) (hb : s.world.background = .ended)
    (hid : ¬ s.Ready (.call id)) :
    ((s.dropTimers (.call id)).step (.proceed id)).load < s.load := by
  have hworld : ((s.dropTimers (.call id)).step (.proceed id)).world =
      s.world.finishClear s.behaviour id order := by
    show s.world.step s.behaviour (.proceed id) = _
    simp only [World.step, htask, hb]
  have hclearing : id ∈ s.world.clearing := by
    obtain ⟨l₁, l₂, hl, -⟩ := List.lookup_eq_some_iff.1 htask
    exact World.mem_clearing.2 ⟨order, hl ▸ List.mem_append_right _ List.mem_cons_self⟩
  have hasleep : ((s.dropTimers (.call id)).step (.proceed id)).asleep < s.asleep := by
    have hsub : (s.world.finishClear s.behaviour id order).clearing.Sublist
        (s.world.clearing.filter (· ≠ id)) := World.clearing_filter_ne rfl
    rw [asleep, asleep, hworld]
    refine Nat.lt_of_le_of_lt hsub.countP_le ?_
    rw [List.countP_filter]
    refine countP_lt_countP (fun i _ hi ↦ (Bool.and_eq_true_iff.1 hi).1) hclearing
      (decide_eq_true hid) ?_
    simp
  have hweight : weight ((s.dropTimers (.call id)).step (.proceed id)).world.background =
      weight s.world.background := by rw [hworld]; rfl
  have hdropped : (s.dropTimers (.call id)).load = s.load := rfl
  rw [load_step_eq, hweight, ← hdropped, load]
  show s.line.length + s.awaitedReady.toNat + 8 * s.started.length + weight s.world.background +
    _ < _
  exact Nat.add_lt_add_left hasleep _

/-- **A call that runs makes the load less**, by itself or by having been asleep. -/
theorem load_runCall_le (hd : s.world.Distinct) {id : CallId} (hid : ¬ s.Ready (.call id)) :
    (s.runCall id).load + (if id ∈ s.world.clearing then 1 else 0) ≤ s.load := by
  have hone : (if id ∈ s.world.clearing then 1 else 0) ≤ 1 := by split <;> decide
  rw [runCall]
  split
  · rename_i op hop
    have hmake := load_make_le { s with started := s.started.filter (·.1 ≠ id) } id op
    have hfilter : (s.started.filter (·.1 ≠ id)).length < s.started.length := by
      obtain ⟨l₁, l₂, hl, -⟩ := List.lookup_eq_some_iff.1 hop
      refine List.length_filter_lt_length_iff_exists.2
        ⟨(id, op), hl ▸ List.mem_append_right _ List.mem_cons_self, ?_⟩
      simp
    have hload : load { s with started := s.started.filter (·.1 ≠ id) } + 8 ≤ s.load := by
      show s.line.length + s.awaitedReady.toNat + 8 * (s.started.filter (·.1 ≠ id)).length +
        weight s.world.background + s.asleep + 8 ≤ s.load
      unfold load
      omega
    omega
  · have hawake : (∀ order, s.world.task? id ≠ some (.clear order)) →
        (if id ∈ s.world.clearing then 1 else 0) = 0 := fun hnot ↦ by
      refine if_neg fun hmem ↦ ?_
      obtain ⟨order, htask⟩ := hd.task?_of_clearing hmem
      exact hnot order htask
    split
    · rename_i htask
      rw [hawake fun order ho ↦ Option.some_ne_none _ (ho.symm.trans htask)]
      exact Nat.le_refl _
    · rename_i order htask
      split
      · rename_i hended
        have hlt := load_proceed_lt htask hended hid
        omega
      · rename_i hgoes
        have hlt := load_graceOver_lt htask hgoes
        omega
    · rename_i task hclear htask
      rw [hawake fun order ho ↦ hclear order (Option.some.inj (htask.symm.trans ho))]
      refine Nat.le_trans (load_arrange_of_ne fun order ho ↦ ?_)
        (load_step s fun _ _ ↦ Event.noConfusion)
      exact (World.questionsLeft_answer htask hclear ho).2 order rfl

/-! ### Taking turns -/

/-- Who is taken out to run counts as asleep, if it is a clearing call. -/
theorem asleep_pop (hd : s.world.Distinct) (hworld : u.world = s.world) {id : CallId}
    (hready : ∀ i, u.Ready (.call i) ↔ s.Ready (.call i) ∧ Actor.call i ≠ .call id) :
    u.asleep ≤ s.asleep + if id ∈ s.world.clearing then 1 else 0 := by
  have hone : (s.world.clearing.filter (· == id)).length =
      if id ∈ s.world.clearing then 1 else 0 := by
    rw [← List.countP_eq_length_filter]
    exact ((World.clearing_sublist s.world).nodup hd).count
  rw [asleep, asleep, hworld, List.countP_eq_countP_filter_add _ _ (· == id), Nat.add_comm]
  refine Nat.add_le_add ?_ (hone ▸ List.countP_le_length)
  rw [List.countP_filter]
  refine List.countP_mono_left fun i _ hi ↦ ?_
  obtain ⟨hasleep, hne⟩ := Bool.and_eq_true_iff.1 hi
  have hne' : i ≠ id := by simpa using hne
  refine decide_eq_true fun hr ↦ of_decide_eq_true hasleep ((hready i).2 ⟨hr, fun hcall ↦ ?_⟩)
  exact hne' (Actor.call.inj hcall)

/-- The first in the line runs, and the load is less. -/
theorem load_turnLine_lt (h : s.Single) (hd : s.world.Distinct) {line : List Actor}
    (hline : s.line = a :: line) : ({ s with line }.runActor a).load < s.load := by
  have hlength : s.line.length = line.length + 1 := by rw [hline]; rfl
  have hready : ∀ a', ({ s with line } : Session).Ready a' ↔ s.Ready a' ∧ a' ≠ a :=
    fun _ ↦ ready_popLine h hline
  have hpopped : ∀ k, ({ s with line } : Session).asleep ≤ s.asleep + k →
      ({ s with line } : Session).load + 1 ≤ s.load + k := by
    intro k hk
    show line.length + s.awaitedReady.toNat + 8 * s.started.length + weight s.world.background +
      ({ s with line } : Session).asleep + 1 ≤ s.load + k
    unfold load
    omega
  cases a with
  | call id =>
    have hload := hpopped _ (asleep_pop (u := { s with line }) hd rfl fun i ↦ hready (.call i))
    have hrun := load_runCall_le (s := { s with line }) hd fun hr ↦ ((hready _).1 hr).2 rfl
    exact Nat.lt_of_add_lt_add_right (Nat.lt_of_lt_of_le (Nat.lt_succ_of_le hrun) hload)
  | background =>
    have hload := hpopped 0 (asleep_le (List.Sublist.refl _) fun id hr ↦
      (hready (.call id)).2 ⟨hr, fun hcall ↦ nomatch hcall⟩)
    exact Nat.lt_of_le_of_lt (load_runBackground (h.popLine hline)) hload

/-- The awaited call runs, and the load is less. -/
theorem load_turnAwaited_lt (h : s.Single) (hd : s.world.Distinct) {id : CallId}
    (hid : s.awaited = some id) (hawaited : s.awaitedReady = true) :
    ({ s with awaitedReady := false }.runCall id).load < s.load := by
  have hready : ∀ a', ({ s with awaitedReady := false } : Session).Ready a' ↔
      s.Ready a' ∧ a' ≠ .call id := fun _ ↦ ready_popAwaited h hid
  have hasleep := asleep_pop (u := { s with awaitedReady := false }) hd rfl fun i ↦ hready (.call i)
  have hload : ({ s with awaitedReady := false } : Session).load + 1 ≤
      s.load + if id ∈ s.world.clearing then 1 else 0 := by
    show s.line.length + 0 + 8 * s.started.length + weight s.world.background +
      ({ s with awaitedReady := false } : Session).asleep + 1 ≤ _
    unfold load
    rw [hawaited, Bool.toNat_true]
    omega
  have hrun := load_runCall_le (s := { s with awaitedReady := false }) hd
    fun hr ↦ ((hready _).1 hr).2 rfl
  exact Nat.lt_of_add_lt_add_right (Nat.lt_of_lt_of_le (Nat.lt_succ_of_le hrun) hload)

/-- Every turn keeps what is said of a session, and nobody can run twice. -/
structure KeptByTurns (P : Session → Prop) : Prop where
  single : ∀ {s}, P s → s.Single
  distinct : ∀ {s}, P s → s.world.Distinct
  line : ∀ {s a line}, P s → s.line = a :: line → P ({ s with line }.runActor a)
  awaited : ∀ {s id}, P s → s.awaited = some id → s.awaitedReady = true →
    P ({ s with awaitedReady := false }.runCall id)

namespace KeptByTurns

variable {P : Session → Prop}

/-- **Draining an instant leaves nobody who can run**, given as many turns as the load. -/
theorem drain (hkept : KeptByTurns P) {n : Nat} (h : P s) (hn : s.load ≤ n) :
    P (drain n s) ∧ (Session.drain n s).Rest := by
  induction n generalizing s with
  | zero =>
    unfold load at hn
    have hrest : s.Rest := by
      refine ⟨List.eq_nil_of_length_eq_zero (by omega), ?_⟩
      rcases hready : s.awaitedReady with - | -
      · rfl
      · rw [hready, Bool.toNat_true] at hn
        omega
    exact ⟨h, hrest⟩
  | succ n ih =>
    rw [Session.drain]
    split
    · rename_i a line hline
      have hlt := load_turnLine_lt (hkept.single h) (hkept.distinct h) hline
      exact ih (hkept.line h hline) (Nat.le_of_lt_succ (Nat.lt_of_lt_of_le hlt hn))
    · rename_i hline
      split
      · rename_i hready
        split
        · rename_i id hid
          have hlt := load_turnAwaited_lt (hkept.single h) (hkept.distinct h) hid hready
          exact ih (hkept.awaited h hid hready) (Nat.le_of_lt_succ (Nat.lt_of_lt_of_le hlt hn))
        · rename_i hnone
          have howner := (hkept.single h).owner hready
          rw [hnone] at howner
          cases howner
      · rename_i hready
        exact ⟨h, hline, by simpa using hready⟩

/-- **When an instant has been settled, nobody can run any more.** -/
theorem settle (hkept : KeptByTurns P) (h : P s) : P s.settle ∧ s.settle.Rest :=
  hkept.drain h (load_le_turns s)

end KeptByTurns

variable {up : Upstream} {x : Terms}

/-- A session that sees to its answers goes on to do so. -/
theorem keptByTurns_follows : KeptByTurns fun s ↦ ∃ t, Follows up x none s t where
  single := fun ⟨_, h⟩ ↦ h.single
  distinct := fun ⟨_, h⟩ ↦ h.distinct
  line := fun ⟨_, h⟩ hline ↦ h.turnLine hline
  awaited := fun ⟨_, h⟩ hid hready ↦ h.turnAwaited hid hready

end Session

end StoreCache
