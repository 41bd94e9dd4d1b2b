import StoreCache.Proofs.Forward
import StoreCache.Proofs.Pacing

/-!
# Sessions keep the rhythm

Between two things that are done with a session nobody can run, and an idle task waits for a tick
that is not due (`Session.Resting`). It has a timer for it. So a session that goes from timer to
timer does not pass the tick by, and **each thing done with it leads from one pulse to a later one**
(`Session.Resting.pulses`), whoever answers and however long that takes.
-/

namespace StoreCache

namespace Session

variable {b : Behaviour} {p now : Nat} {start : Pulse} {s u : Session}

/-! ### The passing of time -/

/-- A session keeps the rhythm, and nobody can run. -/
structure Resting (b : Behaviour) (p : Nat) (start : Pulse) (now : Nat) (s : Session) : Prop where
  ticking : s.Ticking b p start now
  rest : s.Rest

theorem Ticking.settle (h : s.Ticking b p start now) : s.settle.Resting b p start now :=
  ⟨(keptByTurns_ticking.settle h).1, (keptByTurns_ticking.settle h).2⟩

/-- An event that is nobody's, such as that the clock shows another time. -/
theorem Ticking.clock (h : s.Ticking b p start now) (time : Nat) :
    (s.step (.clock time)).Ticking b p start now :=
  ⟨h.paced.step_of_ne (fun _ _ ↦ Event.noConfusion) rfl, h.alert.step fun hidle ↦ ⟨hidle, rfl⟩⟩

namespace Resting

/-- The idle task of a session at rest waits for a tick that is not due. -/
theorem timer (h : s.Resting b p start now) (hidle : s.world.background = .idle) :
    s.world.stopping = false ∧ now < s.nextTick ∧ ⟨s.nextTick, .background⟩ ∈ s.timers := by
  rw [← h.ticking.paced.now]
  exact (h.ticking.alert hidle).resolve_left (h.rest.not_ready _)

/-- What is done with a session at rest leaves it waiting. -/
theorem congr (h : s.Resting b p start now) (hpace : u.pace = s.pace) (hsingle : u.Single)
    (htimers : u.timers = s.timers) : u.Ticking b p start now :=
  ⟨h.ticking.paced.congr hpace hsingle, h.ticking.alert.congr hpace
    (fun hr ↦ absurd hr (h.rest.not_ready _)) fun _ hm ↦ htimers ▸ hm⟩

/-- **Time passes**, but not past a tick that the idle task waits for. -/
theorem moveTo (h : s.Resting b p start now) {d : Nat} (hd : now ≤ d)
    (hdue : s.world.background = .idle → d ≤ s.nextTick) :
    (s.moveTo d).Paced b p start d := by
  obtain ⟨x, hx, hat⟩ := h.ticking.paced.reached
  have hpaced := h.ticking.paced
  have hpassed : Paced b p start d { s with now := d } :=
    { reached := by
        refine ⟨{ x with now := d }, hx.pass ?_ fun hidle ↦ ?_, hat.world, rfl, hat.nextTick⟩
        · rwa [hat.now, hpaced.now]
        · rw [hat.world] at hidle ⊢
          rw [hat.nextTick]
          exact ⟨(h.timer hidle).1, hdue hidle⟩
      ran := hpaced.ran
      behaviour := hpaced.behaviour
      period := hpaced.period
      periodPos := hpaced.periodPos
      now := rfl
      single := hpaced.single.congr rfl
      distinct := hpaced.distinct }
  exact hpassed.step_of_ne (fun _ _ ↦ Event.noConfusion) rfl

/-- Those are woken whose timers are due, and the task is one of them if its tick is due. -/
theorem woken (h : s.Resting b p start now) {d : Nat} (hd : now ≤ d)
    (hdue : s.world.background = .idle → d ≤ s.nextTick) :
    (s.woken d).Ticking b p start d := by
  have hmoved := h.moveTo hd hdue
  have hpaced : Paced b p start d { s.moveTo d with timers := s.timers.filter (d < ·.due) } :=
    hmoved.congr rfl (hmoved.single.congr rfl)
  refine ⟨hpaced.wakeAll _, ?_⟩
  by_cases hidle : s.world.background = .idle
  · obtain ⟨hgoing, -, htimer⟩ := h.timer hidle
    by_cases hlater : d < s.nextTick
    · have halert : Alert { s.moveTo d with timers := s.timers.filter (d < ·.due) } := fun _ ↦
        Or.inr ⟨hgoing, hlater, List.mem_filter.2 ⟨htimer, decide_eq_true hlater⟩⟩
      exact halert.wakeAll _
    · have hmem : Actor.background ∈ s.dueAt d := List.mem_map.2
        ⟨_, List.mem_filter.2 ⟨htimer, decide_eq_true (Nat.le_of_not_lt hlater)⟩, rfl⟩
      exact fun _ ↦ Or.inl (ready_wakeAll.2 (Or.inr hmem))
  · refine alert_of_ne ?_
    rw [Session.woken, world_wakeAll]
    exact hidle

end Resting

/-- The awaited call has its turn first. -/
theorem Ticking.first (h : s.Ticking b p start now) : s.first.Ticking b p start now := by
  unfold Session.first
  split
  · rename_i hready
    split
    · rename_i id hid
      exact keptByTurns_ticking.awaited h hid hready
    · exact h
  · exact h

namespace Resting

theorem arrive (h : s.Resting b p start now) {d : Nat} (hd : now ≤ d)
    (hdue : s.world.background = .idle → d ≤ s.nextTick) :
    (s.arrive d).Resting b p start d := by
  rw [arrive_eq]
  exact (h.woken hd hdue).first.settle

theorem passUntil (h : s.Resting b p start now) (wished : Session → Bool) (limit : Nat) :
    ∃ now', (passUntil wished limit now s).Resting b p start now' ∧ (now ≤ limit → now' ≤ limit) ∧
      (wished (Session.passUntil wished limit now s) = true ∨
        (Session.passUntil wished limit now s).nextDue? now' limit = none) := by
  refine passUntil_induction (P := Resting b p start) (fun h hd ↦ ?_) wished now s h
  refine h.arrive (Nat.le_of_lt (nextDue?_bounds hd).1) fun hidle ↦ ?_
  obtain ⟨-, hlater, htimer⟩ := h.timer hidle
  exact due_le_of_nextDue? hd htimer hlater

/-! ### What is done with a session -/

theorem advance (h : s.Resting b p start now) (time : Nat) :
    (s.advance time).Resting b p start (now + time) := by
  obtain ⟨now', hpassed, hle, hend⟩ := h.passUntil (fun _ ↦ false) (now + time)
  have hlate := hend.resolve_left Bool.false_ne_true
  simp only [Session.advance, h.ticking.paced.now]
  generalize Session.passUntil (fun _ ↦ false) (now + time) now s = v at hpassed hlate
  have hnext : v.world.background = .idle → now + time < v.nextTick := fun hidle ↦ by
    obtain ⟨-, hlater, htimer⟩ := hpassed.timer hidle
    exact lt_due_of_nextDue? hlate htimer hlater
  have hmoved := hpassed.moveTo (hle (Nat.le_add_right _ _)) fun hidle ↦ Nat.le_of_lt (hnext hidle)
  refine Ticking.settle ⟨hmoved, fun hidle ↦ ?_⟩
  obtain ⟨hgoing, -, htimer⟩ := hpassed.timer hidle
  exact Or.inr ⟨hgoing, hnext hidle, htimer⟩

theorem await (h : s.Resting b p start now) (id : CallId) :
    ∃ now', (s.await id).Resting b p start now' := by
  obtain ⟨now', hpassed, -⟩ := h.ticking.settle.passUntil (fun s ↦ (s.outcome? id).isSome) s.horizon
  rw [Session.await, h.ticking.paced.now]
  exact ⟨now', hpassed.ticking.settle⟩

/-- Another call is awaited, or none. -/
theorem expect (h : s.Resting b p start now) (awaited : Option CallId) (nextId : CallId) :
    Ticking b p start now { s with awaited, nextId, awaitedReady := false } := by
  refine h.congr rfl ⟨h.ticking.paced.single.line, fun id _ hmem ↦ ?_, nofun⟩ rfl
  have hmem' : Actor.call id ∈ s.line := hmem
  rw [h.rest.line] at hmem'
  cases hmem'

theorem perform (h : s.Resting b p start now) (op : Operation) :
    ∃ now', (s.perform op).2.Resting b p start now' := by
  have hexpect := h.expect (some s.nextId) (s.nextId + 1)
  rw [← h.rest.awaited] at hexpect
  have hmade := (hexpect.make s.nextId op).settle
  simp only [Session.perform]
  generalize (({ s with nextId := s.nextId + 1, awaited := some s.nextId } : Session).make
    s.nextId op).settle = v at hmade ⊢
  rw [hmade.ticking.paced.now]
  obtain ⟨now', hpassed, -⟩ := hmade.passUntil (fun v ↦ (v.outcome? s.nextId).isSome) v.horizon
  generalize Session.passUntil (fun v ↦ (v.outcome? s.nextId).isSome) v.horizon now v = v'
    at hpassed
  exact ⟨now', (hpassed.expect none v'.nextId).settle⟩

theorem spawn (h : s.Resting b p start now) (op : Operation) :
    (s.spawn op).2.Resting b p start now := by
  have hstarted : Ticking b p start now
      { s with nextId := s.nextId + 1, started := s.started ++ [(s.nextId, op)] } :=
    h.congr rfl (h.ticking.paced.single.congr rfl) rfl
  have hwoken : Ticking b p start now
      (({ s with nextId := s.nextId + 1, started := s.started ++ [(s.nextId, op)] } : Session).wake
        (.call s.nextId)) :=
    ⟨hstarted.paced.wakeAll [.call s.nextId], hstarted.alert.wakeAll [.call s.nextId]⟩
  exact hwoken.settle

theorem setClock (h : s.Resting b p start now) (time : Nat) :
    (s.setClock time).Resting b p start now := by
  have hset : Ticking b p start now { s with clock := (time, s.now) } :=
    h.congr rfl (h.ticking.paced.single.congr rfl) rfl
  exact ⟨hset.clock _, h.rest.line, h.rest.awaited⟩

/-- Somebody else answers from now on, at another pace. -/
theorem serve (h : s.Resting b p start now) (latency : Nat) (source : Source) :
    Resting b p start now { s with latency, source } :=
  ⟨h.congr rfl (h.ticking.paced.single.congr rfl) rfl, h.rest.line, h.rest.awaited⟩

theorem act (h : s.Resting b p start now) (a : Act) :
    ∃ now', (s.act a).Resting b p start now' := by
  cases a with
  | perform op => exact h.perform op
  | spawn op => exact ⟨now, h.spawn op⟩
  | await id => exact h.await id
  | advance time => exact ⟨now + time, h.advance time⟩
  | setClock time => exact ⟨now, h.setClock time⟩
  | edit c => exact ⟨now, h.serve s.latency c.source⟩

end Resting

end Session

/-- What is done with a session when it is open who answers, and how fast. -/
inductive Handling
  | act (a : Act)
  /-- Answers come from this source from now on, and take as long. -/
  | serve (latency : Nat) (source : Source)

namespace Session

variable {b : Behaviour} {p now : Nat} {start x : Pulse} {s : Session}

/-- Do something with a session. -/
def handle (s : Session) : Handling → Session
  | .act a => s.act a
  | .serve latency source => { s with latency, source }

/-- Do one thing after the other with a session. -/
def handleAll (s : Session) (l : List Handling) : Session := l.foldl handle s

/-! ### One thing after the other -/

namespace Resting

theorem handle (h : s.Resting b p start now) (d : Handling) :
    ∃ now', (s.handle d).Resting b p start now' := by
  cases d with
  | act a => exact h.act a
  | serve latency source => exact ⟨now, h.serve latency source⟩

/-- A session is at a pulse, whatever came before. -/
theorem restart (h : s.Resting b p start now) (hat : s.AtPulse x) : s.Resting b p x now :=
  ⟨⟨{ h.ticking.paced with reached := ⟨x, .start, hat⟩ }, h.ticking.alert⟩, h.rest⟩

/-- **The pulses of a session** are reached one from the other, and it is at rest at each. -/
theorem pulses (h : s.Resting b p start now) (hat : s.AtPulse x) (l : List Handling) :
    ∃ pulses : Nat → Pulse, pulses 0 = x ∧ ∀ k,
      Pulse.Reached b p (pulses k) (pulses (k + 1)) ∧
      (s.handleAll (l.take k)).AtPulse (pulses k) ∧
      ∃ now', (s.handleAll (l.take k)).Resting b p (pulses k) now' := by
  induction l generalizing x s start now with
  | nil =>
    refine ⟨fun _ ↦ x, rfl, fun k ↦ ⟨.start, ?_⟩⟩
    rw [List.take_nil]
    exact ⟨hat, now, h.restart hat⟩
  | cons d l ih =>
    obtain ⟨now', h'⟩ := (h.restart hat).handle d
    obtain ⟨y, hreached, hat'⟩ := h'.ticking.paced.reached
    obtain ⟨pulses, rfl, hpulses⟩ := ih h' hat'
    refine ⟨fun k ↦ k.casesOn x pulses, rfl, fun k ↦ ?_⟩
    cases k with
    | zero => exact ⟨hreached, hat, now, h.restart hat⟩
    | succ k => exact hpulses k

end Resting

/-- A session begins at the beginning of a pulse. -/
theorem resting_new (b : Behaviour) (settings : CacheSettings) (latency : Nat) (source : Source)
    (tracks : Bool) (clock : Nat) :
    (new b settings latency source tracks clock).Resting b (settings.period * 1000)
      (.new tracks clock) 0 where
  ticking :=
    { paced :=
        { reached := ⟨.new tracks clock, .start, rfl, rfl, rfl⟩
          ran := ⟨tracks, clock, [], rfl⟩
          behaviour := rfl
          period := rfl
          periodPos := Nat.mul_pos (Nat.le_max_left 1 _) (by decide)
          now := rfl
          single := ⟨List.nodup_nil, nofun, nofun⟩
          distinct := List.nodup_nil }
      alert := nofun }
  rest := ⟨rfl, rfl⟩

end Session

/-! ### The theorem -/

/-- **The periodic task keeps its rhythm.** Let `p` be the configured interval, or a second if that
is none.

Whatever happens, and however long runs take, there is no task yet, or there is the one that was
spawned at some instant `T`, and it keeps to its schedule from then on: the run number `k` begins at
`T` if it is the first, and else at `T + k * p` or as the run before ends, whichever is later.

* As long as the cache is in use there is a task, and it is idle or in a run. It ends only after a
  call to clear the cache, so nothing that runs come to keeps it from its later ticks.
* A run that begins is a sweep of the stores there are. Each answer brings it nearer to its end, and
  whatever else happens leaves it as it is or breaks it off.
* Once a call to clear the cache has been made no run begins, be its tick due at the time or long
  overdue.

And whatever is done with a session, with answers from anywhere that take any time, the session is
at such a pulse all along. Where it leaves a cache in use, the task is idle or in a run. Where it
leaves an idle task, the task has not been told to stop, and has begun one run for each of the
instants `T`, `T + p`, `T + 2 * p` and so on that have come. Where it leaves a cache that has been
cleared, no run begins any more. -/
theorem Session.rhythm_of_handlings (b : Behaviour) (tracks : Bool) (clock : Nat)
    (settings : CacheSettings) :
    let p := max 1 settings.refreshInterval.toNat * 1000
    (∀ x, Pulse.Reached b p (.new tracks clock) x → x.Timely p ∧
      (∀ T y, x.Keeps p T → Pulse.Reached b p x y → y.Keeps p T) ∧
      (x.world.cache.phase = .started → (∃ T, x.Keeps p T) ∧
        (x.world.background = .idle ∨ x.world.background.runs = true)) ∧
      (x.world.background = .ended → x.world.stopping = true ∧ x.world.cache.phase = .cleared) ∧
      (∀ order, x.world.beginsRun (.tick order) = true → x.world.cache.stores = ∅ ∨
        ∃ s, (x.event b p (.tick order)).world.background = .sweeping s ∧
          s.current :: s.rest = World.visiting order x.world.cache) ∧
      (x.world.background.runs = true →
        (∀ e, (∀ source, e ≠ .backgroundAnswer source) →
          (x.event b p e).world.background = x.world.background ∨
            (x.event b p e).world.background = .ended) ∧
        ∀ source, (x.event b p (.backgroundAnswer source)).world.background.questionsLeft <
          x.world.background.questionsLeft) ∧
      ∀ id order y, x.world.knows id = false →
        Pulse.Reached b p (x.event b p (.call id (.clear order))) y →
        y.beats.begun = x.beats.begun) ∧
    ∀ (latency : Nat) (source : Source) (handlings : List Handling), ∃ pulses : Nat → Pulse,
      pulses 0 = .new tracks clock ∧ ∀ k,
      let s := (Session.new b settings latency source tracks clock).handleAll (handlings.take k)
      Pulse.Reached b p (pulses k) (pulses (k + 1)) ∧ s.AtPulse (pulses k) ∧
      (s.world.cache.phase = .started → (∃ T, (pulses k).Keeps p T) ∧
        (s.world.background = .idle ∨ s.world.background.runs = true)) ∧
      (s.world.background = .idle → s.world.stopping = false ∧ ∃ T, (pulses k).Keeps p T ∧
        (pulses k).beats.begun.length = (s.now - T) / p + 1) ∧
      (s.world.cache.phase = .cleared →
        (pulses (k + 1)).beats.begun = (pulses k).beats.begun) := by
  intro p
  refine ⟨fun x hx ↦ ⟨hx.timely, fun T y hkeeps hy ↦ hx.keeps hkeeps hy, hx.attended,
    hx.stopping_of_ended, fun order hbegins ↦ ?_,
    fun hruns ↦ ⟨fun e he ↦ hx.background_event_of_runs hruns he,
      World.questionsLeft_step_backgroundAnswer hruns⟩,
    fun id order y hnew hy ↦ hx.begun_of_clear hnew hy⟩, fun latency source handlings ↦ ?_⟩
  · exact (World.background_step_of_beginsRun (b := b) hbegins).imp_left And.left
  obtain ⟨pulses, hstart, hpulses⟩ :=
    (resting_new b settings latency source tracks clock).pulses (x := .new tracks clock)
      ⟨rfl, rfl, rfl⟩ handlings
  have hreached : ∀ k, Pulse.Reached b p (.new tracks clock) (pulses k) := by
    intro k
    induction k with
    | zero => exact hstart ▸ .start
    | succ k ih => exact ih.trans (hpulses k).1
  refine ⟨pulses, hstart, fun k ↦
    ⟨(hpulses k).1, (hpulses k).2.1, fun hphase ↦ ?_, fun hidle ↦ ?_, fun hphase ↦ ?_⟩⟩ <;>
    obtain ⟨hnext, hat, now, hresting⟩ := hpulses k
  · rw [← hat.world] at hphase ⊢
    exact (hreached k).attended hphase
  · obtain ⟨hgoing, hlater, -⟩ := hresting.timer hidle
    rw [← hresting.ticking.paced.now, ← hat.now, ← hat.nextTick] at hlater
    rcases (hreached k).timely with ⟨habsent, -⟩ | ⟨T, hkeeps⟩
    · rw [hat.world, hidle] at habsent
      cases habsent
    · exact ⟨hgoing, T, hkeeps, hat.now ▸ hkeeps.length_begun hlater⟩
  · obtain ⟨events, hworld⟩ := (hreached k).exists_run
    rw [← hat.world, hworld] at hphase
    have hstopping : (pulses k).world.stopping = true := by
      rw [hworld]
      exact World.stopping_of_run hphase
    exact (hnext.begun_of_stopping hstopping).2

/-- A cache that is swept every second has one store, and an answer takes one and a half. The store
is unsubscribed during a sweep. -/
def sweptSlowly : List Handling :=
  [.act (.perform .start), .act (.perform (.subscribe "orders")), .act (.advance 2300),
    .act (.perform (.unsubscribe "orders")), .act (.advance 900)]

/-- The interval is none, which is taken as a second. -/
def everySecond : CacheSettings := ⟨0, 60, false⟩

/-- The sweep takes four and a half seconds, and when it has ended all that were due meanwhile
follow; a call to clear the cache is the end of them. -/
theorem rhythm_of_sweptSlowly :
    let s := (Session.new .silent everySecond 1500 Catalog.settled.source true 0).handleAll
      sweptSlowly
    s.now = 7700 ∧ ∃ x : Pulse, s.AtPulse x ∧ x.Keeps 1000 0 ∧ x.beats.begun.length = 8 ∧
      ∀ y, Pulse.Reached .silent 1000 (x.event .silent 1000 (.call 3 (.clear []))) y →
        y.beats.begun.length = 8 := by
  intro s
  have hnow : s.now = 7700 := by decide +kernel
  have hidle : s.world.background = .idle := by decide +kernel
  have hnew : s.world.knows 3 = false := by decide +kernel
  obtain ⟨hkept, hsessions⟩ := Session.rhythm_of_handlings .silent true 0 everySecond
  obtain ⟨pulses, hstart, hpulses⟩ := hsessions 1500 Catalog.settled.source sweptSlowly
  have hreached : ∀ i k, Pulse.Reached .silent 1000 (pulses i) (pulses (i + k)) := by
    intro i k
    induction k with
    | zero => exact .start
    | succ k ih => exact ih.trans (hpulses (i + k)).1
  -- The task is spawned by the first call, at no time at all.
  have hkeeps : (pulses 5).Keeps 1000 0 := by
    obtain ⟨-, hat, -, hidle, -⟩ := hpulses 1
    obtain ⟨-, T, hkeeps, -⟩ := hidle (by decide +kernel)
    have hzero : (pulses 1).now = 0 := hat.now.trans (by decide +kernel)
    obtain rfl : T = 0 := Nat.le_zero.1 (hzero ▸ hkeeps.schedule.sinceSpawned)
    exact (hkept (pulses 1) (hstart ▸ hreached 0 1)).2.1 0 (pulses 5) hkeeps (hreached 1 4)
  obtain ⟨-, hat, -, hrests, -⟩ := hpulses 5
  obtain ⟨-, T, hkeeps', hlength⟩ := hrests hidle
  obtain rfl : T = 0 := by
    have hspawned := hkeeps'.schedule.spawned
    rw [hkeeps.schedule.spawned] at hspawned
    exact (Option.some.inj hspawned).symm
  have height : (pulses 5).beats.begun.length = 8 := by
    rw [hlength]
    show (s.now - 0) / 1000 + 1 = 8
    rw [hnow]
  refine ⟨hnow, pulses 5, hat, hkeeps, height, fun y hy ↦ ?_⟩
  obtain ⟨-, -, -, -, -, -, hcleared⟩ := hkept (pulses 5) (hstart ▸ hreached 0 5)
  rw [hcleared 3 [] y (hat.world ▸ hnew) hy]
  exact height

end StoreCache
