import Mathlib.Data.List.GetD
import StoreCache.Proofs.Lifecycle

/-!
# The rhythm of the periodic task

The periodic task begins a run as soon as it is spawned, and another with every period that passes.
A run takes as long as it takes, and while it lasts there is no other. The ticks that it lets pass
are not moved by that and not dropped: they are made up for one by one, each as soon as the run
before has ended. So **the instants at which runs begin are given by a recursion over the durations
of the runs before** (`beginning`).

A `Pulse` is a world on virtual time with a note of the instants at which the periodic task was
spawned and its runs began and ended. Anything may happen at any instant and in any order, with two
exceptions that belong to the clock of the task (`Pulse.Reached`): it begins no run before a tick is
due, and while it is idle no time passes that a due tick, or the signal to stop, would have ended.
Nothing is supposed of runs. They take whatever time passes until they end, by the last answer, or
because they are broken off.

That no tick is lost takes a task to make up for it. **The task of a cache in use is idle or in a
run** (`World.background_of_run`): whatever a run comes to, the task goes back to wait for its next
tick, unless a call to clear the cache has told it to stop or breaks it off.
-/

namespace StoreCache

/-! ### The recursion -/

/-- When the run number `k` begins, of a task that is spawned at `T`, is due every `p`, and takes
`d k` for the run number `k`. -/
def beginning (T p : Nat) (d : Nat → Nat) : Nat → Nat
  | 0 => T
  | k + 1 => max (T + (k + 1) * p) (beginning T p d k + d k)

variable {T p : Nat}

theorem due_le_beginning (d : Nat → Nat) (k : Nat) : T + k * p ≤ beginning T p d k := by
  cases k with
  | zero => exact Nat.le_of_eq (by rw [Nat.zero_mul, Nat.add_zero, beginning])
  | succ k => exact Nat.le_max_left _ _

/-- A run begins when those before have taken what they have taken, whatever comes later. -/
theorem beginning_congr {d d' : Nat → Nat} {k : Nat} (h : ∀ i < k, d i = d' i) :
    beginning T p d k = beginning T p d' k := by
  induction k with
  | zero => rfl
  | succ k ih =>
    have hbefore := ih fun i hi ↦ h i (Nat.lt_succ_of_lt hi)
    rw [beginning, beginning, hbefore, h k (Nat.lt_succ_self k)]

/-! ### What is noted -/

/-- When the periodic task was spawned, and when its runs began and ended, the first run first. -/
structure Beats where
  spawned : Option Nat
  begun : List Nat
  ended : List Nat

namespace Beats

/-- There is no task to speak of yet. -/
def silent : Beats := ⟨none, [], []⟩

/-- The task is spawned. -/
def spawn (k : Beats) (now : Nat) : Beats := { k with spawned := some now }

/-- A run begins. -/
def begin (k : Beats) (now : Nat) : Beats := { k with begun := k.begun ++ [now] }

/-- A run ends. -/
def finish (k : Beats) (now : Nat) : Beats := { k with ended := k.ended ++ [now] }

/-- How long a run has taken, if it has ended. -/
def duration (k : Beats) (i : Nat) : Nat := k.ended.getD i 0 - k.begun.getD i 0

/-- **The task keeps to the schedule.** Every run has begun when the durations of the runs before
say so, and has ended as much later as it has taken. Runs end in the order in which they begin, and
none but the last goes on. -/
structure OnSchedule (p T now : Nat) (running : Bool) (k : Beats) : Prop where
  spawned : k.spawned = some T
  count : k.begun.length = k.ended.length + running.toNat
  begun : ∀ i t : Nat, k.begun[i]? = some t → t = beginning T p k.duration i
  ended : ∀ i t : Nat, k.ended[i]? = some t → t = beginning T p k.duration i + k.duration i
  sinceSpawned : T ≤ now
  sinceEnded : ∀ i t : Nat, k.ended[i]? = some t → t ≤ now
  sinceBegun : ∀ i t : Nat, k.begun[i]? = some t → t ≤ now

variable {k : Beats} {now i : Nat} {running : Bool}

theorem getElem?_concat_eq_some {l : List Nat} {t : Nat} (h : (l ++ [now])[i]? = some t) :
    i < l.length ∧ l[i]? = some t ∨ i = l.length ∧ t = now := by
  rcases Nat.lt_trichotomy i l.length with hlt | heq | hgt
  · rw [List.getElem?_append_left hlt] at h
    exact Or.inl ⟨hlt, h⟩
  · rw [heq, List.getElem?_concat_length] at h
    exact Or.inr ⟨heq, (Option.some.inj h).symm⟩
  · have hlt := (List.getElem?_eq_some_iff.1 h).1
    rw [List.length_append, List.length_singleton] at hlt
    omega

/-- A run that begins has taken no time yet. -/
theorem duration_begin (h : k.ended.length ≤ k.begun.length) (now : Nat) :
    (k.begin now).duration = k.duration := by
  funext i
  rw [duration, duration, begin]
  by_cases hi : i < k.begun.length
  · rw [List.getD_append _ _ _ _ hi]
  · have hended : k.ended.getD i 0 = 0 :=
      List.getD_eq_default _ _ (Nat.le_trans h (Nat.le_of_not_lt hi))
    rw [hended, Nat.zero_sub, Nat.zero_sub]

theorem duration_finish_of_ne (hi : i ≠ k.ended.length) (now : Nat) :
    (k.finish now).duration i = k.duration i := by
  have hsame : (k.ended ++ [now]).getD i 0 = k.ended.getD i 0 := by
    rcases Nat.lt_or_gt_of_ne hi with hlt | hgt
    · exact List.getD_append _ _ _ _ hlt
    · rw [List.getD_eq_default _ _ (Nat.le_of_lt hgt), List.getD_eq_default]
      rw [List.length_append]
      exact hgt
  rw [duration, duration, finish, hsame]

theorem duration_finish_last (now : Nat) :
    (k.finish now).duration k.ended.length = now - k.begun.getD k.ended.length 0 := by
  have hlast : (k.ended ++ [now]).getD k.ended.length 0 = now := by
    rw [List.getD_append_right _ _ _ _ (Nat.le_refl _), Nat.sub_self]
    rfl
  rw [duration, finish, hlast]

namespace OnSchedule

/-- The task is spawned, and is on schedule with no run begun. -/
theorem spawn (T : Nat) : (silent.spawn T).OnSchedule p T T false where
  spawned := rfl
  count := rfl
  begun _ _ h := nomatch h
  ended _ _ h := nomatch h
  sinceSpawned := Nat.le_refl T
  sinceEnded _ _ h := nomatch h
  sinceBegun _ _ h := nomatch h

/-- Time passes. -/
theorem pass (h : k.OnSchedule p T now running) {later : Nat} (hlater : now ≤ later) :
    k.OnSchedule p T later running :=
  { h with
    sinceSpawned := Nat.le_trans h.sinceSpawned hlater
    sinceEnded := fun i t ht ↦ Nat.le_trans (h.sinceEnded i t ht) hlater
    sinceBegun := fun i t ht ↦ Nat.le_trans (h.sinceBegun i t ht) hlater }

/-- No run can begin before the tick for it is due and the run before has ended. -/
theorem beginning_le (h : k.OnSchedule p T now false) (hdue : T + k.begun.length * p ≤ now) :
    beginning T p k.duration k.begun.length ≤ now := by
  have hcount : k.begun.length = k.ended.length := h.count
  rw [hcount] at hdue ⊢
  rcases hn : k.ended.length with - | n
  · exact h.sinceSpawned
  · rw [hn] at hdue
    obtain ⟨t, ht⟩ : ∃ t, k.ended[n]? = some t :=
      ⟨_, List.getElem?_eq_getElem (hn ▸ Nat.lt_succ_self n)⟩
    have hend := h.sinceEnded n t ht
    rw [h.ended n t ht] at hend
    exact Nat.max_le.2 ⟨hdue, hend⟩

/-- **A run begins on schedule**, if it does not begin before its tick is due, nor later than it
may. -/
theorem begin (h : k.OnSchedule p T now false) (hdue : T + k.begun.length * p ≤ now)
    (hnow : now ≤ beginning T p k.duration k.begun.length) :
    (k.begin now).OnSchedule p T now true := by
  have hcount : k.begun.length = k.ended.length := h.count
  have hbegins : now = beginning T p k.duration k.begun.length :=
    Nat.le_antisymm hnow (h.beginning_le hdue)
  have hduration := duration_begin (Nat.le_of_eq hcount.symm) now
  exact
    { spawned := h.spawned
      count := by
        show (k.begun ++ [now]).length = _
        rw [List.length_append, hcount]
        rfl
      begun := fun i t ht ↦ by
        rw [hduration]
        rcases getElem?_concat_eq_some ht with ⟨-, hbefore⟩ | ⟨rfl, rfl⟩
        · exact h.begun i t hbefore
        · exact hbegins
      ended := fun i t ht ↦ by
        rw [hduration]
        exact h.ended i t ht
      sinceSpawned := h.sinceSpawned
      sinceEnded := h.sinceEnded
      sinceBegun := fun i t ht ↦ by
        rcases getElem?_concat_eq_some ht with ⟨-, hbefore⟩ | ⟨-, rfl⟩
        · exact h.sinceBegun i t hbefore
        · exact Nat.le_refl _ }

/-- **A run ends**, whenever that is. The next is not late yet. -/
theorem finish (h : k.OnSchedule p T now true) :
    (k.finish now).OnSchedule p T now false ∧
      now ≤ beginning T p (k.finish now).duration k.begun.length := by
  have hcount : k.begun.length = k.ended.length + 1 := h.count
  obtain ⟨t₀, ht₀⟩ : ∃ t₀, k.begun[k.ended.length]? = some t₀ :=
    ⟨_, List.getElem?_eq_getElem (hcount ▸ Nat.lt_succ_self _)⟩
  -- Only the duration of the run that ends changes, and it began before it ended.
  have hkept : ∀ i ≤ k.ended.length,
      beginning T p (k.finish now).duration i = beginning T p k.duration i :=
    fun i hi ↦ beginning_congr fun j hj ↦ duration_finish_of_ne (by omega) now
  have hlast : (k.finish now).duration k.ended.length = now - t₀ := by
    rw [duration_finish_last, List.getD_eq_getElem?_getD, ht₀, Option.getD_some]
  have hends : beginning T p (k.finish now).duration k.ended.length +
      (k.finish now).duration k.ended.length = now := by
    rw [hkept _ (Nat.le_refl _), hlast, ← h.begun _ _ ht₀]
    exact Nat.add_sub_cancel' (h.sinceBegun _ _ ht₀)
  refine ⟨?_, ?_⟩
  · exact
      { spawned := h.spawned
        count := by
          show k.begun.length = (k.ended ++ [now]).length + 0
          rw [List.length_append, hcount]
          rfl
        begun := fun i t ht ↦ by
          have hi : i < k.begun.length := (List.getElem?_eq_some_iff.1 ht).1
          rw [hkept i (by omega)]
          exact h.begun i t ht
        ended := fun i t ht ↦ by
          rcases getElem?_concat_eq_some ht with ⟨hi, hbefore⟩ | ⟨rfl, rfl⟩
          · rw [hkept i (Nat.le_of_lt hi), duration_finish_of_ne (Nat.ne_of_lt hi)]
            exact h.ended i t hbefore
          · exact hends.symm
        sinceSpawned := h.sinceSpawned
        sinceEnded := fun i t ht ↦ by
          rcases getElem?_concat_eq_some ht with ⟨-, hbefore⟩ | ⟨-, rfl⟩
          · exact h.sinceEnded i t hbefore
          · exact Nat.le_refl _
        sinceBegun := h.sinceBegun }
  · rw [hcount, beginning, hends]
    exact Nat.le_max_right _ _

end OnSchedule

end Beats

variable {b : Behaviour} {w : World} {e : Event} {id : CallId} {order : List String}

/-! ### The periodic task of a world -/

deriving instance DecidableEq for Background

/-- The periodic task is in a run. -/
def Background.runs : Background → Bool
  | .sweeping _ => true
  | _ => false

theorem Background.runs_iff {g : Background} : g.runs = true ↔ ∃ s, g = .sweeping s := by
  cases g <;> simp [runs]

/-- How many questions a run has left to ask, at most. -/
def Background.questionsLeft : Background → Nat
  | .sweeping s => Session.sweepQuestionsLeft s
  | _ => 0

namespace World

/-- The event begins a run of the periodic task. -/
def beginsRun (w : World) : Event → Bool
  | .tick _ =>
    match w.background with
    | .idle => !w.stopping
    | _ => false
  | _ => false

/-- The event ends a run of the periodic task, be it the one that it begins. -/
def endsRun (b : Behaviour) (w : World) (e : Event) : Bool :=
  (w.beginsRun e || w.background.runs) && !(w.step b e).background.runs

instance (w : World) : DecidablePred w.Spawns
  | .call id .start => decidable_of_iff (w.knows id = false ∧ w.cache.phase = .notStarted)
      ⟨fun h ↦ ⟨id, rfl, h⟩, fun ⟨_, he, h⟩ ↦ by cases he; exact h⟩
  | .call _ (.clear _) | .call _ (.subscribe _) | .call _ (.unsubscribe _) | .call _ (.refresh _)
  | .call _ (.sweep _) | .call _ (.schema _ _) | .call _ (.register _) | .call _ (.unregister _)
  | .answer _ _ | .abandon _ | .proceed _ | .graceOver _ | .tick _ | .backgroundAnswer _
  | .backgroundStop | .clock _ => .isFalse fun ⟨_, he, _⟩ ↦ nomatch he

theorem beginsRun_iff : w.beginsRun e = true ↔
    (∃ order, e = .tick order) ∧ w.background = .idle ∧ w.stopping = false := by
  refine ⟨fun h ↦ ?_, ?_⟩
  · cases e with
    | tick order =>
      rcases hb : w.background with - | - | v | - <;> simp only [beginsRun, hb] at h
      · cases h
      · exact ⟨⟨order, rfl⟩, rfl, by simpa using h⟩
      · cases h
      · cases h
    | _ => cases h
  · rintro ⟨⟨order, rfl⟩, hb, hgoing⟩
    simp only [beginsRun, hb, hgoing, Bool.not_false]

/-- **A run that begins is a sweep of the stores there are**, and is over at once if there are
none. -/
theorem background_step_of_beginsRun (h : w.beginsRun (.tick order) = true) :
    w.cache.stores = ∅ ∧ (w.step b (.tick order)).background = .idle ∨
      ∃ s, (w.step b (.tick order)).background = .sweeping s ∧
        s.current :: s.rest = visiting order w.cache := by
  obtain ⟨-, hb, hgoing⟩ := beginsRun_iff.1 h
  have hstep : w.step b (.tick order) =
      w.continueBackground (Sweep.start (visiting order w.cache) w.cache) := by
    simp only [step, hb, hgoing, Bool.false_eq_true, if_false]
  rw [hstep]
  rcases hnames : visiting order w.cache with - | ⟨n, rest⟩
  · refine Or.inl ⟨Dict.ext_get? fun m ↦ ?_, ?_⟩
    · by_contra hm
      have hmem : m ∈ visiting order w.cache := Cache.mem_visiting_iff.2 hm
      rw [hnames] at hmem
      cases hmem
    · show (if w.stopping then .ended else .idle) = Background.idle
      rw [hgoing]
      rfl
  · exact Or.inr ⟨⟨n, .placement, rest, .zero⟩, rfl, rfl⟩

/-- **Each answer brings a run nearer to its end.** -/
theorem questionsLeft_step_backgroundAnswer (h : w.background.runs = true) (source : Source) :
    (w.step b (.backgroundAnswer source)).background.questionsLeft <
      w.background.questionsLeft := by
  obtain ⟨s, hs⟩ := Background.runs_iff.1 h
  rw [hs]
  rcases hs' : (w.step b (.backgroundAnswer source)).background with - | - | s' | -
  · exact Session.sweepQuestionsLeft_pos s
  · exact Session.sweepQuestionsLeft_pos s
  · exact questionsLeft_backgroundAnswer hs hs'
  · exact Session.sweepQuestionsLeft_pos s

/-- **What else can happen to the periodic task**: it is left as it is, or ends, or was in a run. -/
theorem background_step_of_not_beginsRun (hspawns : ¬ w.Spawns e)
    (hbegins : w.beginsRun e = false) :
    (w.step b e).background = w.background ∨ (w.step b e).background = .ended ∨
      w.background.runs = true := by
  rcases background_step b w e with hsame | ⟨-, id, op, rfl⟩ | ⟨hended, -⟩ | hown
  · exact Or.inl hsame
  · exact Or.inl (background_step_call hspawns)
  · exact Or.inr (Or.inl hended)
  · cases e with
    | tick order =>
      rcases hb : w.background with - | - | v | - <;> simp only [step, hb]
      · exact Or.inl trivial
      · simp only [beginsRun, hb, Bool.not_eq_false'] at hbegins
        simp only [hbegins, if_true, hb]
        exact Or.inl trivial
      · exact Or.inl trivial
      · exact Or.inl trivial
    | backgroundAnswer source =>
      rcases hb : w.background with - | - | v | - <;> simp only [step, hb]
      · exact Or.inl trivial
      · exact Or.inl trivial
      · exact Or.inr (Or.inr rfl)
      · exact Or.inl trivial
    | backgroundStop =>
      rcases hb : w.background with - | - | v | - <;> simp only [step, hb]
      · exact Or.inl trivial
      · split
        · exact Or.inr (Or.inl rfl)
        · exact Or.inl hb
      · exact Or.inl trivial
      · exact Or.inl trivial
    | call | answer | abandon | proceed | graceOver | clock => cases hown

/-- **A run is left as it is by all but its answers**, unless it is broken off. -/
theorem background_step_of_runs (hspawns : ¬ w.Spawns e) (h : w.background.runs = true)
    (he : ∀ source, e ≠ .backgroundAnswer source) :
    (w.step b e).background = w.background ∨ (w.step b e).background = .ended := by
  rcases background_step b w e with hsame | ⟨-, id, op, rfl⟩ | ⟨hended, -⟩ | hown
  · exact Or.inl hsame
  · exact Or.inl (background_step_call hspawns)
  · exact Or.inr hended
  · obtain ⟨s, hs⟩ := Background.runs_iff.1 h
    cases e with
    | tick | backgroundStop =>
      rw [step, hs]
      exact Or.inl hs
    | backgroundAnswer source => exact absurd rfl (he source)
    | call | answer | abandon | proceed | graceOver | clock => cases hown

/-! ### The signal to stop -/

/-- The signal to stop is not taken back. -/
theorem stopping_step_of_stopping (h : w.stopping = true) (e : Event) :
    (w.step b e).stopping = true := by
  rcases stopping_step (b := b) w e with hsame | ⟨hstop, -⟩
  · exact hsame.trans h
  · exact hstop

/-- A call to clear a cache tells the task to stop, unless it has been told. -/
theorem stopping_step_clear (order : List String) (hnew : w.knows id = false)
    (hstopping : w.cache.phase = .cleared → w.stopping = true) :
    (w.step b (.call id (.clear order))).stopping = true := by
  by_cases hphase : w.cache.phase = .cleared
  · exact stopping_step_of_stopping (hstopping hphase) _
  · rcases step_clear (b := b) order hnew hphase with hw | hw <;> rw [hw] <;> rfl

/-- The task of a cache that has been cleared has been told to stop. -/
theorem stopping_of_run {tracks : Bool} {clock : Nat} {events : List Event}
    (hphase : ((World.new tracks clock).run b events).cache.phase = .cleared) :
    ((World.new tracks clock).run b events).stopping = true := by
  induction events using List.reverseRecOn with
  | nil => cases hphase
  | append_singleton events e ih =>
    rw [run_concat] at hphase ⊢
    by_cases hbefore : ((World.new tracks clock).run b events).cache.phase = .cleared
    · exact stopping_step_of_stopping (ih hbefore) e
    · obtain ⟨id, order, rfl, hnew⟩ := exists_clear_of_phase hbefore hphase
      exact stopping_step_clear order hnew ih

/-- **The task of a cache in use is idle or in a run.** -/
theorem background_of_run {tracks : Bool} {clock : Nat} {events : List Event}
    (hphase : ((World.new tracks clock).run b events).cache.phase = .started) :
    ((World.new tracks clock).run b events).background = .idle ∨
      ((World.new tracks clock).run b events).background.runs = true := by
  rcases hb : ((World.new tracks clock).run b events).background with - | - | s | -
  · exact absurd hb (present_of_run hphase)
  · exact Or.inl rfl
  · exact Or.inr rfl
  · rw [phase_cleared_of_ended hb] at hphase
    cases hphase

end World

/-! ### Pulses -/

/-- A world on virtual time in which the periodic task is watched. -/
structure Pulse where
  world : World
  /-- Milliseconds since the beginning. -/
  now : Nat
  /-- When the next tick is due. -/
  nextTick : Nat
  beats : Beats

namespace Pulse

variable {start x y : Pulse}

/-- A pulse at its beginning. -/
def new (tracks : Bool) (clock : Nat) : Pulse := ⟨.new tracks clock, 0, 0, .silent⟩

/-- What is noted after an event. -/
def noted (b : Behaviour) (x : Pulse) (e : Event) : Beats :=
  let k := if x.world.Spawns e then x.beats.spawn x.now else x.beats
  let k := if x.world.beginsRun e then k.begin x.now else k
  if x.world.endsRun b e then k.finish x.now else k

/-- Something happens. The first tick is due as the task is spawned, and each run is for one
tick. -/
def event (b : Behaviour) (p : Nat) (x : Pulse) (e : Event) : Pulse where
  world := x.world.step b e
  now := x.now
  nextTick :=
    if x.world.Spawns e then x.now
    else if x.world.beginsRun e then x.nextTick + p
    else x.nextTick
  beats := x.noted b e

/-- The pulses that come of one. -/
inductive Reached (b : Behaviour) (p : Nat) (start : Pulse) : Pulse → Prop
  | start : Reached b p start start
  /-- Something happens. No run begins before its tick is due. -/
  | event {x : Pulse} (h : Reached b p start x) {e : Event}
      (hdue : x.world.beginsRun e = true → x.nextTick ≤ x.now) : Reached b p start (x.event b p e)
  /-- Time passes. A task that is idle and has been told to stop stops before that, and one that is
  idle when its tick is due begins its run before that. -/
  | pass {x : Pulse} (h : Reached b p start x) {later : Nat} (hlater : x.now ≤ later)
      (hidle : x.world.background = .idle → x.world.stopping = false ∧ later ≤ x.nextTick) :
      Reached b p start { x with now := later }

/-- **The periodic task that was spawned at `T` keeps to its schedule.** Each run has had one tick,
and the next run is not late. -/
structure Keeps (p T : Nat) (x : Pulse) : Prop where
  present : x.world.background ≠ .absent
  schedule : x.beats.OnSchedule p T x.now x.world.background.runs
  nextTick : x.nextTick = T + x.beats.begun.length * p
  prompt : x.world.background = .idle →
    x.now ≤ beginning T p x.beats.duration x.beats.begun.length

/-- There is no periodic task yet, or it keeps to its schedule. -/
def Timely (p : Nat) (x : Pulse) : Prop :=
  x.world.background = .absent ∧ x.beats = .silent ∨ ∃ T, x.Keeps p T

/-- The task is spawned where there is none. -/
theorem keeps_of_spawns (hsilent : x.beats = .silent) (habsent : x.world.background = .absent)
    (hspawns : x.world.Spawns e) : (x.event b p e).Keeps p x.now := by
  obtain ⟨id, rfl, -, hstep⟩ := World.step_of_spawns (b := b) hspawns
  have hidle : (x.world.step b (.call id .start)).background = .idle := by rw [hstep]; rfl
  have hends : x.world.endsRun b (.call id .start) = false := by
    rw [World.endsRun, habsent]
    rfl
  have hnoted : x.noted b (.call id .start) = Beats.silent.spawn x.now := by
    simp only [noted, hspawns, if_true, World.beginsRun, hends, Bool.false_eq_true, if_false,
      hsilent]
  constructor
  · rw [event, hidle]
    exact Background.noConfusion
  · rw [event, hidle, hnoted]
    exact .spawn x.now
  · simp only [event, if_pos hspawns, hnoted]
    show x.now = x.now + 0 * p
    rw [Nat.zero_mul, Nat.add_zero]
  · simp only [event, hnoted]
    exact fun _ ↦ Nat.le_refl _

/-- There is no task yet, and nothing to note. -/
theorem event_of_absent (hsilent : x.beats = .silent) (habsent : x.world.background = .absent)
    (hspawns : ¬ x.world.Spawns e) : (x.event b p e).beats = .silent := by
  have hbegins : x.world.beginsRun e = false := Bool.eq_false_iff.2 fun hbegins ↦ by
    cases habsent.symm.trans (World.beginsRun_iff.1 hbegins).2.1
  have hends : x.world.endsRun b e = false := by
    rw [World.endsRun, hbegins, habsent]
    rfl
  simp only [event, noted, hspawns, hbegins, hends, Bool.false_eq_true, if_false, hsilent]

namespace Keeps

variable {x : Pulse}

/-- A run begins, and ends at once if there are no stores. -/
theorem begin (h : x.Keeps p T) (hbegins : x.world.beginsRun e = true)
    (hdue : x.nextTick ≤ x.now) : (x.event b p e).Keeps p T := by
  obtain ⟨⟨order, rfl⟩, hidle, -⟩ := World.beginsRun_iff.1 hbegins
  have hspawns : ¬ x.world.Spawns (.tick order) :=
    World.not_spawns_of_ne fun _ _ ↦ Event.noConfusion
  have hbegun : (x.beats.begin x.now).OnSchedule p T x.now true := by
    have hschedule := h.schedule
    rw [hidle] at hschedule
    exact hschedule.begin (h.nextTick ▸ hdue) (h.prompt hidle)
  have hnext : (x.event b p (.tick order)).nextTick =
      T + (x.beats.begin x.now).begun.length * p := by
    have hlength : (x.beats.begin x.now).begun.length = x.beats.begun.length + 1 :=
      List.length_append
    rw [hlength, Nat.add_mul, Nat.one_mul, ← Nat.add_assoc, ← h.nextTick]
    simp only [event, hspawns, if_false, hbegins, if_true]
  rcases World.background_step_of_beginsRun (b := b) hbegins with ⟨-, hafter⟩ | ⟨s, hs, -⟩
  · have hnoted : x.noted b (.tick order) = (x.beats.begin x.now).finish x.now := by
      simp only [noted, hspawns, if_false, hbegins, if_true, World.endsRun, Bool.true_or, hafter]
      rfl
    obtain ⟨hended, hprompt⟩ := hbegun.finish
    constructor
    · rw [event, hafter]
      exact Background.noConfusion
    · rw [event, hafter, hnoted]
      exact hended
    · rw [hnext, event, hnoted]
      rfl
    · rw [event, hnoted]
      exact fun _ ↦ hprompt
  · have hruns : (x.world.step b (.tick order)).background.runs = true := by
      rw [hs]
      rfl
    have hnoted : x.noted b (.tick order) = x.beats.begin x.now := by
      simp only [noted, hspawns, if_false, hbegins, if_true, World.endsRun, hruns, Bool.not_true,
        Bool.and_false, Bool.false_eq_true]
    constructor
    · rw [event]
      intro habsent
      rw [habsent] at hruns
      cases hruns
    · rw [event, hruns, hnoted]
      exact hbegun
    · rw [hnext, event, hnoted]
    · rw [event]
      intro hafter
      rw [hafter] at hruns
      cases hruns

/-- What else happens ends a run, or leaves the task as it is, or breaks it off. -/
theorem event (h : x.Keeps p T) (hspawns : ¬ x.world.Spawns e)
    (hbegins : x.world.beginsRun e = false) : (x.event b p e).Keeps p T := by
  have hnext : (x.event b p e).nextTick = x.nextTick := by
    simp only [Pulse.event, hspawns, hbegins, Bool.false_eq_true, if_false]
  have hpresent := World.background_step_of_present (b := b) h.present e
  by_cases hends : x.world.endsRun b e = true
  · obtain ⟨hruns, hafter⟩ : x.world.background.runs = true ∧
        (x.world.step b e).background.runs = false := by
      simpa [World.endsRun, hbegins] using hends
    have hnoted : x.noted b e = x.beats.finish x.now := by
      simp only [noted, hspawns, if_false, hbegins, Bool.false_eq_true, hends, if_true]
    obtain ⟨hended, hprompt⟩ := (hruns ▸ h.schedule).finish
    constructor
    · exact hpresent
    · rw [Pulse.event, hafter, hnoted]
      exact hended
    · rw [hnext, h.nextTick, Pulse.event, hnoted]
      rfl
    · rw [Pulse.event, hnoted]
      exact fun _ ↦ hprompt
  · have hnoted : x.noted b e = x.beats := by
      simp only [noted, hspawns, if_false, hbegins, Bool.false_eq_true, hends]
    have hgoes : x.world.background.runs = true → (x.world.step b e).background.runs = true := by
      intro hruns
      simpa [World.endsRun, hruns] using hends
    have hsame : (x.world.step b e).background.runs = x.world.background.runs ∧
        ((x.world.step b e).background = .idle → x.world.background = .idle) := by
      rcases World.background_step_of_not_beginsRun (b := b) hspawns hbegins with
        hsame | hended | hruns
      · rw [hsame]
        exact ⟨rfl, id⟩
      · rw [hended] at hgoes ⊢
        exact ⟨(Bool.eq_false_iff.2 fun hruns ↦ Bool.false_ne_true (hgoes hruns)).symm, nofun⟩
      · refine ⟨(hgoes hruns).trans hruns.symm, fun hafter ↦ ?_⟩
        rw [hafter] at hgoes
        cases hgoes hruns
    constructor
    · exact hpresent
    · rw [Pulse.event, hsame.1, hnoted]
      exact h.schedule
    · rw [hnext, h.nextTick, Pulse.event, hnoted]
    · rw [Pulse.event, hnoted]
      exact fun hafter ↦ h.prompt (hsame.2 hafter)

/-- Time passes, but not past the tick that an idle task waits for. -/
theorem pass (h : x.Keeps p T) {later : Nat} (hlater : x.now ≤ later)
    (hidle : x.world.background = .idle → later ≤ x.nextTick) :
    ({ x with now := later } : Pulse).Keeps p T where
  present := h.present
  schedule := h.schedule.pass hlater
  nextTick := h.nextTick
  prompt hb := Nat.le_trans (h.nextTick ▸ hidle hb) (due_le_beginning _ _)

/-- **No tick has been lost and none has come twice**: a task that waits for its next tick has begun
a run for each that was due. -/
theorem length_begun (h : x.Keeps p T) (hnext : x.now < x.nextTick) :
    x.beats.begun.length = (x.now - T) / p + 1 := by
  have hspawned := h.schedule.sinceSpawned
  rw [h.nextTick] at hnext
  rcases hn : x.beats.begun.length with - | n
  · rw [hn] at hnext
    omega
  · obtain ⟨t, ht⟩ : ∃ t, x.beats.begun[n]? = some t :=
      ⟨_, List.getElem?_eq_getElem (hn ▸ Nat.lt_succ_self n)⟩
    have hlast : T + n * p ≤ x.now := by
      refine Nat.le_trans ?_ (h.schedule.sinceBegun n t ht)
      rw [h.schedule.begun n t ht]
      exact due_le_beginning _ n
    rw [hn] at hnext
    have hdiv : (x.now - T) / p = n := Nat.div_eq_of_lt_le (by omega) (by omega)
    rw [hdiv]

end Keeps

/-! ### Pulses that are reached -/

namespace Reached

variable {tracks : Bool} {clock : Nat}

theorem trans {z : Pulse} (h₁ : Reached b p x y) (h₂ : Reached b p y z) : Reached b p x z := by
  induction h₂ with
  | start => exact h₁
  | event _ hdue ih => exact .event ih hdue
  | pass _ hlater hidle ih => exact .pass ih hlater hidle

theorem exists_run (h : Reached b p x y) : ∃ events, y.world = x.world.run b events := by
  induction h with
  | start => exact ⟨[], rfl⟩
  | @event _ _ e _ ih =>
    obtain ⟨events, hworld⟩ := ih
    refine ⟨events ++ [e], ?_⟩
    rw [World.run_concat, ← hworld]
    rfl
  | pass _ _ _ ih => exact ih

theorem exists_gated (h : Reached b p (new tracks clock) x) :
    ∃ events, World.Gated b (World.new tracks clock) events x.world := by
  obtain ⟨events, hworld⟩ := h.exists_run
  refine ⟨events, ?_⟩
  rw [hworld]
  exact World.gated_of_run b tracks clock events

/-- A task that keeps to its schedule goes on to do so, and there is no other. -/
theorem keeps (hx : Reached b p (new tracks clock) x) (h : x.Keeps p T) (hy : Reached b p x y) :
    y.Keeps p T := by
  induction hy with
  | start => exact h
  | @event y hy e hdue ih =>
    obtain ⟨_, hgated⟩ := (hx.trans hy).exists_gated
    rcases hbegins : y.world.beginsRun e with - | -
    · exact ih.event (fun hspawns ↦ ih.present (hgated.absent_of_spawns hspawns)) hbegins
    · exact ih.begin hbegins (hdue hbegins)
  | pass _ hlater hidle ih => exact ih.pass hlater fun hb ↦ (hidle hb).2

/-- **The periodic task keeps to its schedule**, whatever happens. -/
theorem timely (h : Reached b p (new tracks clock) x) : x.Timely p := by
  induction h with
  | start => exact Or.inl ⟨rfl, rfl⟩
  | @event x hx e hdue ih =>
    rcases ih with ⟨habsent, hsilent⟩ | ⟨T, hkeeps⟩
    · by_cases hspawns : x.world.Spawns e
      · exact Or.inr ⟨x.now, keeps_of_spawns hsilent habsent hspawns⟩
      · obtain ⟨_, hgated⟩ := hx.exists_gated
        exact Or.inl ⟨World.background_step_of_absent hspawns habsent (hgated.waits habsent),
          event_of_absent hsilent habsent hspawns⟩
    · exact Or.inr ⟨T, hx.keeps hkeeps (.event .start hdue)⟩
  | @pass x hx later hlater hidle ih =>
    exact ih.imp_right fun ⟨T, hkeeps⟩ ↦ ⟨T, hx.keeps hkeeps (.pass .start hlater hidle)⟩

/-- **The task of a cache in use keeps to its schedule**, and is idle or in a run. -/
theorem attended (h : Reached b p (new tracks clock) x) (hphase : x.world.cache.phase = .started) :
    (∃ T, x.Keeps p T) ∧ (x.world.background = .idle ∨ x.world.background.runs = true) := by
  obtain ⟨events, hworld⟩ := h.exists_run
  have hpresent : x.world.background ≠ .absent := by
    rw [hworld] at hphase ⊢
    exact World.present_of_run hphase
  refine ⟨h.timely.resolve_left fun hnone ↦ hpresent hnone.1, ?_⟩
  rw [hworld] at hphase ⊢
  exact World.background_of_run hphase

/-- A task that has ended has been told to stop, by a call to clear the cache. -/
theorem stopping_of_ended (h : Reached b p (new tracks clock) x)
    (hended : x.world.background = .ended) :
    x.world.stopping = true ∧ x.world.cache.phase = .cleared := by
  obtain ⟨events, hworld⟩ := h.exists_run
  rw [hworld] at hended ⊢
  have hphase := World.phase_cleared_of_ended hended
  exact ⟨World.stopping_of_run hphase, hphase⟩

/-- A run is left as it is by all but its answers, unless it is broken off. -/
theorem background_event_of_runs (h : Reached b p (new tracks clock) x)
    (hruns : x.world.background.runs = true) (he : ∀ source, e ≠ .backgroundAnswer source) :
    (x.event b p e).world.background = x.world.background ∨
      (x.event b p e).world.background = .ended := by
  refine World.background_step_of_runs (fun hspawns ↦ ?_) hruns he
  obtain ⟨_, hgated⟩ := h.exists_gated
  rw [hgated.absent_of_spawns hspawns] at hruns
  cases hruns

/-- A task that has been told to stop begins no run. -/
theorem begun_of_stopping (h : Reached b p x y) (hstopping : x.world.stopping = true) :
    y.world.stopping = true ∧ y.beats.begun = x.beats.begun := by
  induction h with
  | start => exact ⟨hstopping, rfl⟩
  | @event y _ e _ ih =>
    refine ⟨World.stopping_step_of_stopping ih.1 e, ?_⟩
    have hbegins : y.world.beginsRun e = false := Bool.eq_false_iff.2 fun hbegins ↦ by
      cases ih.1.symm.trans (World.beginsRun_iff.1 hbegins).2.2
    rw [← ih.2]
    simp only [Pulse.event, noted, hbegins, Bool.false_eq_true, if_false]
    split <;> split <;> rfl
  | pass _ _ _ ih => exact ih

/-- **No run begins after a call to clear the cache**, be a tick due at the time or long overdue. -/
theorem begun_of_clear (h : Reached b p (new tracks clock) x) (hnew : x.world.knows id = false)
    (hafter : Reached b p (x.event b p (.call id (.clear order))) y) :
    y.beats.begun = x.beats.begun := by
  obtain ⟨events, hworld⟩ := h.exists_run
  have hstopping : (x.event b p (.call id (.clear order))).world.stopping = true := by
    refine World.stopping_step_clear order hnew fun hphase ↦ ?_
    rw [hworld] at hphase ⊢
    exact World.stopping_of_run hphase
  have hcall : (x.event b p (.call id (.clear order))).beats.begun = x.beats.begun := by
    simp only [Pulse.event, noted, World.beginsRun, Bool.false_eq_true, if_false]
    split <;> split <;> rfl
  rw [← hcall]
  exact (hafter.begun_of_stopping hstopping).2

end Reached

end Pulse

end StoreCache
