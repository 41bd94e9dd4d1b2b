import StoreCache.SchemaQuery
import StoreCache.Sweep

/-!
# Runs

A `World` is a cache together with everything in flight: the calls that wait for an answer, the
periodic task, and the results of calls that have returned. It moves by **events**. An event is one
stretch of work that nothing else comes between: a call up to its first wait, an answer and the work
up to the next wait, a task given up, a tick. A run is a list of events, so *every interleaving* is
*every list*.

An event that does not apply, such as an answer nobody waits for, changes nothing.

## The periodic task

`Background` is the task that sweeps the cache again and again. While it is idle a tick starts a
sweep. Clearing tells it to stop: an idle task stops at once, a sweeping one at the end of its
sweep, and if that takes longer than the grace period it is broken off where it waits.
-/

namespace StoreCache

/-- What a caller may ask of a cache. Lists of names are the order in which a sweep visits the
stores, or clearing removes them; an order that does not list exactly the subscribed stores counts
as key order. -/
inductive Operation
  | start
  | clear (order : List String)
  | subscribe (name : String)
  | unsubscribe (name : String)
  /-- Refresh one store, and return its record. -/
  | refresh (name : String)
  /-- Refresh all subscribed stores. -/
  | sweep (order : List String)
  | schema (name : String) (q : SchemaQuery)
  | register (l : ListenerId)
  | unregister (l : ListenerId)
  deriving DecidableEq, Repr

/-- What a call returns when it is not refused. -/
inductive Answer
  | done
  | flag (b : Bool)
  | record (s : Store)
  | tally (t : Tally)
  | schema (a : SchemaAnswer)
  deriving DecidableEq

/-- What became of a call. -/
abbrev Outcome := Except CacheError Answer

/-- A call that waits. -/
inductive Task
  /-- A refresh of one store; `wantsRecord` says whether the caller is given the record. -/
  | refresh (name : String) (stage : Stage) (wantsRecord : Bool)
  | sweep (s : Sweep)
  /-- A question about schemas that waits for them, with the record it may need. -/
  | schema (name : String) (q : SchemaQuery) (record : Option Store)
  /-- Clearing that waits for the periodic task to end. -/
  | clear (order : List String)

/-- The periodic task. -/
inductive Background
  /-- The cache has not been started. -/
  | absent
  | idle
  | sweeping (s : Sweep)
  /-- The task has ended. -/
  | ended

/-- Calls are told apart by number. -/
abbrev CallId := Nat

/-- A cache and all that is in flight. -/
structure World where
  cache : Cache
  /-- The calls that wait. -/
  tasks : List (CallId × Task)
  background : Background
  /-- Whether the periodic task has been told to stop. -/
  stopping : Bool
  /-- The calls that have returned, newest first. -/
  outcomes : List (CallId × Outcome)
  /-- The calls that their callers have given up; they never return. -/
  givenUp : List CallId

/-- What may happen next. -/
inductive Event
  /-- A call is made. -/
  | call (id : CallId) (op : Operation)
  /-- The answer to a call's open question comes. -/
  | answer (id : CallId) (source : Source)
  /-- The caller gives a waiting call up. -/
  | abandon (id : CallId)
  /-- A clearing call notices that the periodic task has ended, and goes on. -/
  | proceed (id : CallId)
  /-- The grace period of a clearing call is over: the periodic task is broken off. -/
  | graceOver (id : CallId)
  /-- The periodic task is due. -/
  | tick (order : List String)
  /-- The answer to the periodic task's open question comes. -/
  | backgroundAnswer (source : Source)
  /-- The idle periodic task notices that it has to stop. -/
  | backgroundStop
  /-- The clock shows another time. -/
  | clock (time : Nat)

namespace World

/-- A world with a new cache and nothing in flight. -/
def new (tracks : Bool) (clock : Nat) : World where
  cache := .new tracks clock
  tasks := []
  background := .absent
  stopping := false
  outcomes := []
  givenUp := []

/-- The names of the subscribed stores in the order wished for, if that lists exactly them. -/
def visiting (order : List String) (c : Cache) : List String :=
  if order.isPerm c.stores.keys then order else c.stores.keys

/-- The call with this number, if it waits. -/
def task? (w : World) (id : CallId) : Option Task := w.tasks.lookup id

/-- Whether a call with this number has been made: it waits, has returned or was given up. -/
def knows (w : World) (id : CallId) : Bool :=
  (w.tasks.lookup id).isSome || (w.outcomes.lookup id).isSome || w.givenUp.contains id

/-- Put the cache in the place of the one there is. -/
def withCache (w : World) (c : Cache) : World := { w with cache := c }

/-- A call returns. -/
def finish (w : World) (id : CallId) (o : Outcome) : World :=
  { w with
    tasks := w.tasks.filter (·.1 ≠ id)
    outcomes := (id, o) :: w.outcomes }

/-- A call waits. -/
def wait (w : World) (id : CallId) (t : Task) : World :=
  { w with tasks := (id, t) :: w.tasks.filter (·.1 ≠ id) }

/-- A waiting call is given up. -/
def giveUp (w : World) (id : CallId) : World :=
  { w with
    tasks := w.tasks.filter (·.1 ≠ id)
    givenUp := id :: w.givenUp }

/-- A refresh of one store goes on or returns. -/
def continueRefresh (w : World) (id : CallId) (name : String) (wantsRecord : Bool)
    (next : Progress × Cache) : World :=
  let w := w.withCache next.2
  match next.1 with
  | .waiting stage => w.wait id (.refresh name stage wantsRecord)
  | .ended (.error e) => w.finish id (.error e)
  | .ended (.ok none) => w.finish id (.error (.noSuchStore name none))
  | .ended (.ok (some s)) => w.finish id (.ok (if wantsRecord then .record s else .done))

/-- A sweep goes on or returns its tally. -/
def continueSweep (w : World) (id : CallId) (next : (Tally ⊕ Sweep) × Cache) : World :=
  let w := w.withCache next.2
  match next.1 with
  | .inl tally => w.finish id (.ok (.tally tally))
  | .inr s => w.wait id (.sweep s)

/-- The periodic task's sweep goes on or ends; the task ends with it if it has to stop. -/
def continueBackground (w : World) (next : (Tally ⊕ Sweep) × Cache) : World :=
  { w with
    cache := next.2
    background :=
      match next.1 with
      | .inl _ => if w.stopping then .ended else .idle
      | .inr s => .sweeping s }

/-- Clearing is through with the periodic task: drop everything. -/
def finishClear (b : Behaviour) (w : World) (id : CallId) (order : List String) : World :=
  (w.withCache (w.cache.wipe b (visiting order w.cache))).finish id (.ok .done)

/-! ### Calls -/

/-- Begin a refresh of one store. -/
def beginRefresh (w : World) (id : CallId) (name : String) (wantsRecord : Bool) : World :=
  match w.cache.phase.usable with
  | .error e => w.finish id (.error e)
  | .ok () =>
    (w.withCache (Refresh.start name w.cache)).wait id (.refresh name .placement wantsRecord)

/-- Ask for the schemas of a store, unless they are in the cache. -/
def beginSchema (w : World) (id : CallId) (name : String) (q : SchemaQuery)
    (record : Option Store) : World :=
  match w.cache.schemas.get? name with
  | some d => w.finish id ((q.answer name record d).map .schema)
  | none =>
    if w.cache.stores.contains name then
      (w.withCache (w.cache.ask (.schemas name))).wait id (.schema name q record)
    else w.finish id (.error (.noSuchStore name none))

/-- Make a call. -/
def call (b : Behaviour) (w : World) (id : CallId) : Operation → World
  | .start =>
    match w.cache.phase with
    | .notStarted =>
      { w with cache := { w.cache with phase := .started }, background := .idle }.finish id
        (.ok .done)
    | .started => w.finish id (.ok .done)
    | .cleared => w.finish id (.error .alreadyCleared)
  | .clear order =>
    if w.cache.phase = .cleared then w.finish id (.error .cleared)
    else
      let w := { w with cache := { w.cache with phase := .cleared }, stopping := true }
      match w.background with
      | .absent => w.finishClear b id order
      | _ => w.wait id (.clear order)
  | .subscribe name =>
    match w.cache.has name with
    | .error e => w.finish id (.error e)
    | .ok true => w.finish id (.ok .done)
    | .ok false => w.beginRefresh id name false
  | .unsubscribe name => (w.withCache (w.cache.remove b name)).finish id (.ok .done)
  | .refresh name => w.beginRefresh id name true
  | .sweep order =>
    match w.cache.phase.usable with
    | .error e => w.finish id (.error e)
    | .ok () => w.continueSweep id (Sweep.start (visiting order w.cache) w.cache)
  | .schema name q =>
    match w.cache.phase.usable with
    | .error e => w.finish id (.error e)
    | .ok () =>
      if q.needsRecord then
        match w.cache.stores.get? name with
        | none => w.finish id (.error (.noSuchStore name none))
        | some s =>
          if q = .superset ∧ s.supersetSchema? = none then
            w.finish id (.ok (.schema (.maybe none)))
          else w.beginSchema id name q (some s)
      else w.beginSchema id name q none
  | .register l =>
    (w.withCache (w.cache.register l).2).finish id (.ok (.flag (w.cache.register l).1))
  | .unregister l =>
    (w.withCache (w.cache.unregister l).2).finish id (.ok (.flag (w.cache.unregister l).1))

/-! ### Steps -/

/-- An answer comes to a waiting call. -/
def answer (b : Behaviour) (w : World) (id : CallId) (source : Source) : Task → World
  | .refresh name stage wantsRecord =>
    w.continueRefresh id name wantsRecord (Refresh.resume b .upsert name stage source w.cache)
  | .sweep s => w.continueSweep id (s.resume b source w.cache)
  | .schema name q record =>
    let next := Refresh.fileSchemas name (source.schemas name) w.cache
    (w.withCache next.2).finish id (next.1.bind fun d ↦ (q.answer name record d).map .schema)
  | .clear _ => w

/-- What an event makes of a world. -/
def step (b : Behaviour) (w : World) : Event → World
  | .call id op => if w.knows id then w else w.call b id op
  | .answer id source =>
    match w.task? id with
    | some t => w.answer b id source t
    | none => w
  | .abandon id =>
    match w.task? id with
    | some _ => w.giveUp id
    | none => w
  | .proceed id =>
    match w.task? id, w.background with
    | some (.clear order), .ended => w.finishClear b id order
    | _, _ => w
  | .graceOver id =>
    match w.task? id with
    | some (.clear _) => { w with background := .ended }
    | _ => w
  | .tick order =>
    match w.background with
    | .idle =>
      if w.stopping then w
      else w.continueBackground (Sweep.start (visiting order w.cache) w.cache)
    | _ => w
  | .backgroundAnswer source =>
    match w.background with
    | .sweeping s => w.continueBackground (s.resume b source w.cache)
    | _ => w
  | .backgroundStop =>
    match w.background with
    | .idle => if w.stopping then { w with background := .ended } else w
    | _ => w
  | .clock time => w.withCache { w.cache with clock := time }

/-- What a list of events makes of a world. -/
def run (b : Behaviour) (w : World) (events : List Event) : World := events.foldl (step b) w

end World

end StoreCache
