import StoreCache.Settings
import StoreCache.World

/-!
# Sessions on virtual time

A session runs a world on one thread against one source, with time that is counted and not waited
for. It decides **when** each event happens, and nothing else: the world is changed by `World.step`
alone, so whatever holds after every run holds in every session.

## Who runs when

The work is divided among *actors*: the calls, each started on its own or awaited by the session's
caller, and the periodic task. An actor runs until it has to wait: for the answer to a question,
which takes the session's latency, for the next tick, or for another actor.

* Time moves only when no actor can run, and then to the next instant at which a timer is due.
* Timers due at one instant wake their actors in the order in which they were set, but the call that
  the caller awaits comes before all others.
* Actors woken by others wait in line; the awaited call is looked at when the line is empty.

The periodic task is due every period from its start. A tick missed because a sweep took too long is
made up for as soon as the sweep ends, and a task told to stop looks at that before it looks at the
ticks.
-/

namespace StoreCache

/-- Who can run. -/
inductive Actor
  | call (id : CallId)
  | background
  deriving DecidableEq, Repr

/-- An actor waits for an instant. -/
structure Timer where
  due : Nat
  actor : Actor
  deriving DecidableEq, Repr

/-- A world on virtual time. -/
structure Session where
  behaviour : Behaviour
  settings : CacheSettings
  /-- How long an answer takes, in milliseconds. -/
  latency : Nat
  source : Source
  world : World
  /-- Milliseconds since the session began. -/
  now : Nat
  /-- What the clock of the cache shows, and when it was last set. -/
  clock : Nat × Nat
  /-- The timers, in the order in which they were set. -/
  timers : List Timer
  /-- The actors that can run, first come first. -/
  line : List Actor
  /-- Calls started on their own that have not run yet. -/
  started : List (CallId × Operation)
  /-- The call that the caller awaits. -/
  awaited : Option CallId
  /-- Whether the awaited call can run. -/
  awaitedReady : Bool
  /-- When the periodic task is next due. -/
  nextTick : Nat
  /-- The number the next call gets. -/
  nextId : CallId

namespace Session

/-- The greatest time a clock shows. -/
def clockLimit : Nat := UInt64.size - 1

/-- A session at its beginning. -/
def new (behaviour : Behaviour) (settings : CacheSettings) (latency : Nat) (source : Source)
    (tracks : Bool) (clock : Nat) : Session where
  behaviour := behaviour
  settings := settings
  latency := latency
  source := source
  world := .new tracks clock
  now := 0
  clock := (clock, 0)
  timers := []
  line := []
  started := []
  awaited := none
  awaitedReady := false
  nextTick := 0
  nextId := 0

/-- Something happens in the world. -/
def step (s : Session) (e : Event) : Session := { s with world := s.world.step s.behaviour e }

/-- What the clock of the cache shows at an instant. -/
def clockAt (s : Session) (now : Nat) : Nat := min (s.clock.1 + (now - s.clock.2)) clockLimit

/-- Move to an instant. -/
def moveTo (s : Session) (now : Nat) : Session :=
  { s with now }.step (.clock (s.clockAt now))

/-- Set the clock of the cache. -/
def setClock (s : Session) (time : Nat) : Session :=
  let s := { s with clock := (time, s.now) }
  s.step (.clock (s.clockAt s.now))

/-- What became of a call, once it has returned. -/
def outcome? (s : Session) (id : CallId) : Option Outcome := s.world.outcomes.lookup id

/-! ### Waking -/

/-- Let an actor run as soon as it is its turn. -/
def wake (s : Session) (a : Actor) : Session :=
  if s.awaited.map Actor.call = some a then { s with awaitedReady := true }
  else if a ∈ s.line then s
  else { s with line := s.line ++ [a] }

/-- Wake an actor later. -/
def setTimer (s : Session) (due : Nat) (a : Actor) : Session :=
  { s with timers := s.timers ++ [⟨due, a⟩] }

/-- Drop the timers of an actor. -/
def dropTimers (s : Session) (a : Actor) : Session :=
  { s with timers := s.timers.filter (·.actor ≠ a) }

/-- Wake the calls that wait for the periodic task to end. -/
def wakeClearing (s : Session) : Session :=
  s.world.tasks.foldl
    (fun s t ↦
      match t.2 with
      | .clear _ => s.wake (.call t.1)
      | _ => s)
    s

/-! ### Answers -/

/-- The questions a refresh has still to ask at most, the open one included. -/
def Stage.questionsLeft : Stage → Nat
  | .placement => 3
  | .record _ => 2
  | .schemas _ => 1

/-- The questions a sweep has still to ask at most, the open one included. -/
def sweepQuestionsLeft (s : Sweep) : Nat := Stage.questionsLeft s.stage + 3 * s.rest.length

/-- The questions a call has still to ask at most, the open one included. -/
def taskQuestionsLeft : Task → Nat
  | .refresh _ stage _ => Stage.questionsLeft stage
  | .sweep s => sweepQuestionsLeft s
  | .schema _ _ _ => 1
  | .clear _ => 0

/-- Answer the questions of a call on the spot. -/
def answerAll (id : CallId) : Nat → Session → Session
  | 0, s => s
  | n + 1, s =>
    match s.world.task? id with
    | some (.clear _) => s
    | some _ => answerAll id n (s.step (.answer id s.source))
    | none => s

/-- Answer the questions of the periodic task's sweep on the spot. -/
def answerBackground : Nat → Session → Session
  | 0, s => s
  | n + 1, s =>
    match s.world.background with
    | .sweeping _ => answerBackground n (s.step (.backgroundAnswer s.source))
    | _ => s

/-! ### The periodic task -/

/-- The milliseconds between two ticks. -/
def period (s : Session) : Nat := s.settings.period * 1000

/-- The periodic task looks around while it is idle: at the signal to stop, then at the ticks that
are due; it sweeps for each of them as long as a sweep needs no waiting. -/
def idleBackground : Nat → Session → Session
  | 0, s => s
  | n + 1, s =>
    match s.world.background with
    | .idle =>
      if s.world.stopping then (s.step .backgroundStop).wakeClearing
      else if s.nextTick ≤ s.now then
        let s := { s.step (.tick []) with nextTick := s.nextTick + s.period }
        match s.world.background with
        | .sweeping w =>
          if s.latency = 0 then idleBackground n (answerBackground (sweepQuestionsLeft w) s)
          else s.setTimer (s.now + s.latency) .background
        | _ => idleBackground n s
      else s.setTimer s.nextTick .background
    | .ended => s.wakeClearing
    | _ => s

/-- The ticks that may be due, and one look more. -/
def ticksDue (s : Session) : Nat := (s.now - s.nextTick) / s.period + 3

/-- The periodic task runs. -/
def runBackground (s : Session) : Session :=
  let s := s.dropTimers .background
  match s.world.background with
  | .absent => s
  | .idle => idleBackground s.ticksDue s
  | .ended => s.wakeClearing
  | .sweeping _ =>
    let s := s.step (.backgroundAnswer s.source)
    match s.world.background with
    | .sweeping _ => s.setTimer (s.now + s.latency) .background
    | _ => idleBackground s.ticksDue s

/-! ### Calls -/

/-- Let a call that has just come to wait do so: set the timer for its answer, or for the end of the
grace period. Where nothing takes time the call goes on at once. -/
def arrange (s : Session) (id : CallId) : Session :=
  match s.world.task? id with
  | none => s
  | some (.clear _) =>
    let s :=
      match s.world.background with
      | .idle => s.wake .background
      | _ => s
    if s.settings.grace = 0 then
      (s.step (.graceOver id)).dropTimers .background |>.wake .background
    else s.setTimer (s.now + s.settings.grace * 1000) (.call id)
  | some t =>
    if s.latency = 0 then answerAll id (taskQuestionsLeft t) s
    else s.setTimer (s.now + s.latency) (.call id)

/-- Make a call; starting the cache sets the periodic task going. -/
def make (s : Session) (id : CallId) (op : Operation) : Session :=
  let before := s.world.background
  let s := s.step (.call id op)
  let s :=
    match before, s.world.background with
    | .absent, .idle => { s with nextTick := s.now }.wake .background
    | _, _ => s
  s.arrange id

/-- A call runs: for the first time, or because what it waits for has come. -/
def runCall (s : Session) (id : CallId) : Session :=
  match s.started.lookup id with
  | some op => { s with started := s.started.filter (·.1 ≠ id) }.make id op
  | none =>
    match s.world.task? id with
    | none => s
    | some (.clear _) =>
      match s.world.background with
      | .ended => (s.dropTimers (.call id)).step (.proceed id)
      | _ => (s.step (.graceOver id)).dropTimers .background |>.wake .background
    | some _ => (s.step (.answer id s.source)).arrange id

/-- An actor runs. -/
def runActor (s : Session) : Actor → Session
  | .call id => s.runCall id
  | .background => s.runBackground

/-! ### An instant -/

/-- Run what can run now, for at most so many turns. -/
def drain : Nat → Session → Session
  | 0, s => s
  | n + 1, s =>
    match s.line with
    | a :: line => drain n ({ s with line }.runActor a)
    | [] =>
      if s.awaitedReady then
        match s.awaited with
        | some id => drain n ({ s with awaitedReady := false }.runCall id)
        | none => s
      else s

/-- The turns an instant can take: each actor may be started, told to stop and told of an end. -/
def turns (s : Session) : Nat :=
  8 * (s.world.tasks.length + s.started.length + s.line.length + 4)

/-- Run everything that can run now. -/
def settle (s : Session) : Session := drain s.turns s

/-- Move to an instant, and run what is due then: the awaited call first. -/
def arrive (s : Session) (now : Nat) : Session :=
  let due := s.timers.filter (·.due ≤ now)
  let s := { s.moveTo now with timers := s.timers.filter (now < ·.due) }
  let s := due.foldl (fun s t ↦ s.wake t.actor) s
  let s :=
    if s.awaitedReady then
      match s.awaited with
      | some id => { s with awaitedReady := false }.runCall id
      | none => s
    else s
  s.settle

/-! ### Passing time -/

/-- The next instant up to `limit` at which a timer is due. -/
def nextDue? (s : Session) (now limit : Nat) : Option Nat :=
  ((s.timers.map Timer.due).filter fun d ↦ decide (now < d ∧ d ≤ limit)).min?

theorem nextDue?_bounds {s : Session} {now limit d : Nat} (h : s.nextDue? now limit = some d) :
    now < d ∧ d ≤ limit := by
  have := List.min?_mem h
  simpa using (List.mem_filter.1 this).2

/-- Go from timer to timer up to an instant, or until the session is as wished. -/
def passUntil (wished : Session → Bool) (limit now : Nat) (s : Session) : Session :=
  if wished s then s
  else
    match h : s.nextDue? now limit with
    | none => s
    | some d =>
      have := nextDue?_bounds h
      passUntil wished limit d (s.arrive d)
termination_by limit - now

/-- Let time pass. -/
def advance (s : Session) (time : Nat) : Session :=
  let target := s.now + time
  let s := passUntil (fun _ ↦ false) target s.now s
  (s.moveTo target).settle

/-- An instant by which every call in flight has returned. -/
def horizon (s : Session) : Nat :=
  let questions :=
    s.world.tasks.foldr (fun t n ↦ taskQuestionsLeft t.2 + n) 0 +
      (match s.world.background with
       | .sweeping w => sweepQuestionsLeft w
       | _ => 0)
  s.now + questions * s.latency + s.settings.grace * 1000 + 1

/-- Wait until a call has returned. -/
def await (s : Session) (id : CallId) : Session :=
  (passUntil (fun s ↦ (s.outcome? id).isSome) s.horizon s.now s.settle).settle

/-- Make a call and wait until it has returned; returns its number. -/
def perform (s : Session) (op : Operation) : CallId × Session :=
  let id := s.nextId
  let s := ({ s with nextId := id + 1, awaited := some id }.make id op).settle
  let s := passUntil (fun s ↦ (s.outcome? id).isSome) s.horizon s.now s
  (id, { s with awaited := none, awaitedReady := false }.settle)

/-- Start a call on its own; returns its number. -/
def spawn (s : Session) (op : Operation) : CallId × Session :=
  let id := s.nextId
  let s := { s with nextId := id + 1, started := s.started ++ [(id, op)] }.wake (.call id)
  (id, s.settle)

end Session

end StoreCache
