import Mathlib.Data.List.Induction
import StoreCache.Proofs.Call
import StoreCache.Proofs.Course

/-!
# Calls left alone

A refresh of one store and a sweep ask the same questions about a store and do different things with
the answers. Here each of them is followed through a run in which **nothing happens but that it is
answered and that time passes** (`Alone`).

The run keeps the evidence. `Answered` says which source has answered the call about a store, and at
which stage; `Ended` says how the refresh of a store has ended, which is what a sweep counts, and
what the clock read then. Two invariants say where the call is: `Refreshing` for a refresh of one
store and `Sweeping` for a sweep, which has stores behind it, one in hand and others ahead.

A sweep left alone takes at most three answers for each store, so it returns.
-/

namespace StoreCache

variable {b : Behaviour} {v w : World} {id : CallId} {n : String} {events : List Event} {e : Event}
  {source : Source}

/-- Nothing happens but that the call `id` is answered and that time passes. -/
def Alone (id : CallId) (events : List Event) : Prop :=
  ∀ e ∈ events, (∃ source, e = .answer id source) ∨ ∃ time, e = .clock time

theorem Alone.of_concat (h : Alone id (events ++ [e])) :
    Alone id events ∧ ((∃ source, e = .answer id source) ∨ ∃ time, e = .clock time) :=
  ⟨fun e' he' ↦ h e' (List.mem_append_left _ he'),
    h e (List.mem_append_right events List.mem_cons_self)⟩

/-- A call is left alone, and all its answers come from one source. -/
def AloneWith (source : Source) (id : CallId) (events : List Event) : Prop :=
  ∀ e ∈ events, e = .answer id source ∨ ∃ time, e = .clock time

theorem AloneWith.alone (h : AloneWith source id events) : Alone id events :=
  fun e he ↦ (h e he).imp_left fun hs ↦ ⟨source, hs⟩

/-- How many answers there are among events. -/
def answersIn (events : List Event) : Nat := events.countP fun e ↦ e.answer?.isSome

theorem answersIn_concat_answer (events : List Event) (id : CallId) (source : Source) :
    answersIn (events ++ [.answer id source]) = answersIn events + 1 := by
  simp [answersIn, List.countP_append, Event.answer?]

theorem answersIn_concat_clock (events : List Event) (time : Nat) :
    answersIn (events ++ [.clock time]) = answersIn events := by
  simp [answersIn, List.countP_append, Event.answer?]

/-- In the run of `events` from `v`, the source has answered the call `id` when the call had a
refresh of the store `n` in flight that waited at the stage. -/
def Answered (b : Behaviour) (v : World) (id : CallId) (n : String) (events : List Event)
    (stage : Stage) (source : Source) : Prop :=
  ∃ earlier mode, earlier ++ [.answer id source] <+: events ∧
    (v.run b earlier).flight? (.call id) = some ⟨mode, n, stage⟩

/-- In the run of `events` from `v`, an answer has ended the refresh of the store `n` that the call
`id` had in flight, with this result, when refreshes were dated `time`. -/
def Ended (b : Behaviour) (v : World) (id : CallId) (n : String) (events : List Event)
    (result : Except CacheError (Option Store)) (time : Option Nat) : Prop :=
  ∃ earlier source mode stage, earlier ++ [.answer id source] <+: events ∧
    (v.run b earlier).flight? (.call id) = some ⟨mode, n, stage⟩ ∧
    (Refresh.resume b mode n stage source (v.run b earlier).cache).1 = .ended result ∧
    (v.run b earlier).cache.reading = time

theorem Answered.concat {stage : Stage} (h : Answered b v id n events stage source) :
    Answered b v id n (events ++ [e]) stage source := by
  obtain ⟨earlier, mode, hp, hf⟩ := h
  exact ⟨earlier, mode, hp.trans (List.prefix_append events [e]), hf⟩

theorem Answered.source_eq {stage : Stage} {s : Source} (h : Answered b v id n events stage s)
    (halone : AloneWith source id events) : s = source := by
  obtain ⟨earlier, mode, hp, -⟩ := h
  have hmem : .answer id s ∈ events := hp.subset (List.mem_append_right earlier List.mem_cons_self)
  rcases halone _ hmem with heq | ⟨time, heq⟩
  · exact (Event.answer.inj heq).2
  · cases heq

theorem Ended.concat {result : Except CacheError (Option Store)} {time : Option Nat}
    (h : Ended b v id n events result time) : Ended b v id n (events ++ [e]) result time := by
  obtain ⟨earlier, source, mode, stage, hp, hf⟩ := h
  exact ⟨earlier, source, mode, stage, hp.trans (List.prefix_append events [e]), hf⟩

/-- Only an answer ends a refresh, and only the one in flight. -/
theorem Ended.of_concat {result : Except CacheError (Option Store)} {time : Option Nat}
    (h : Ended b v id n (events ++ [e]) result time) :
    Ended b v id n events result time ∨ ∃ source mode stage, e = .answer id source ∧
      (v.run b events).flight? (.call id) = some ⟨mode, n, stage⟩ ∧
      (Refresh.resume b mode n stage source (v.run b events).cache).1 = .ended result ∧
      (v.run b events).cache.reading = time := by
  obtain ⟨earlier, source, mode, stage, hp, hf, hr, htime⟩ := h
  rcases List.prefix_concat_iff.1 hp with heq | hp
  · obtain ⟨rfl, hlast⟩ := List.append_inj' heq rfl
    exact Or.inr ⟨source, mode, stage, (List.singleton_inj.1 hlast).symm, hf, hr, htime⟩
  · exact Or.inl ⟨earlier, source, mode, stage, hp, hf, hr, htime⟩

theorem not_ended_nil {result : Except CacheError (Option Store)} {time : Option Nat} :
    ¬ Ended b v id n [] result time := by
  rintro ⟨earlier, source, mode, stage, hp, -⟩
  simpa using List.prefix_nil.1 hp

/-- Where nothing is in flight or nobody is answered, nothing ends. -/
theorem Ended.of_still {result : Except CacheError (Option Store)} {time : Option Nat}
    (h : Ended b v id n (events ++ [e]) result time)
    (hstill : (v.run b events).task? id = none ∨ ∃ time, e = .clock time) :
    Ended b v id n events result time := by
  rcases h.of_concat with h | ⟨source, mode, stage, rfl, hf, -⟩
  · exact h
  · rcases hstill with hnone | ⟨time, hclock⟩
    · rw [World.flight?, hnone] at hf
      cases hf
    · cases hclock

section InFlight

variable {m : String} {mode : Cache.Install} {stage : Stage}
  (hflight : (v.run b events).flight? (.call id) = some ⟨mode, m, stage⟩)

include hflight

/-- An answer about one store ends no refresh of another. -/
theorem Ended.of_ne {result : Except CacheError (Option Store)} {time : Option Nat}
    (h : Ended b v id n (events ++ [.answer id source]) result time) (hn : n ≠ m) :
    Ended b v id n events result time := by
  rcases h.of_concat with h | ⟨_, _, _, -, hf, -⟩
  · exact h
  · rw [hflight] at hf
    exact absurd (congrArg Flight.name (Option.some.inj hf)).symm hn

theorem not_ended_of_waiting {stage' : Stage}
    (hr : (Refresh.resume b mode m stage source (v.run b events).cache).1 = .waiting stage')
    (hbefore : ∀ result time, ¬ Ended b v id m events result time)
    (result : Except CacheError (Option Store)) (time : Option Nat) :
    ¬ Ended b v id m (events ++ [.answer id source]) result time := by
  intro h
  rcases h.of_concat with h | ⟨_, _, _, he, hf, hend, -⟩
  · exact hbefore result time h
  · cases he
    rw [hflight] at hf
    cases hf
    rw [hr] at hend
    cases hend

theorem ended_iff_of_ended {r : Except CacheError (Option Store)}
    (hr : (Refresh.resume b mode m stage source (v.run b events).cache).1 = .ended r)
    (hbefore : ∀ result time, ¬ Ended b v id m events result time)
    (result : Except CacheError (Option Store)) (time : Option Nat) :
    Ended b v id m (events ++ [.answer id source]) result time ↔
      result = r ∧ time = (v.run b events).cache.reading := by
  constructor
  · intro h
    rcases h.of_concat with h | ⟨_, _, _, he, hf, hend, htime⟩
    · exact absurd h (hbefore result time)
    · cases he
      rw [hflight] at hf
      cases hf
      rw [hr] at hend
      cases hend
      exact ⟨rfl, htime.symm⟩
  · rintro ⟨rfl, rfl⟩
    exact ⟨events, source, mode, stage, List.prefix_rfl, hflight, hr, rfl⟩

end InFlight

/-! ### Calm caches -/

/-- A calm cache stays calm as long as it is in use. -/
theorem Cache.Calm.run (h : v.cache.Calm b)
    (hphase : (v.run b events).cache.phase = .started) : (v.run b events).cache.Calm b where
  passive := h.passive.mono (World.run_wrote b v events).suffix
  phase := hphase
  named := by
    obtain ⟨new, -, hnamed⟩ := run_recorded b v events
    exact (hnamed h.named).1
  tracking := World.run_rel (R := fun c d ↦ c.Tracking → d.Tracking) (fun _ h ↦ h)
    (fun h₁ h₂ h ↦ h₂ (h₁ h)) Piece.tracking v events h.tracking

/-- A cache that a run from the beginning has left in use is calm if its listeners are passive. -/
theorem calm_of_run {tracks : Bool} {clock : Nat}
    (hb : b.Passive ((World.new tracks clock).run b events).cache.journal)
    (hphase : ((World.new tracks clock).run b events).cache.phase = .started) :
    ((World.new tracks clock).run b events).cache.Calm b where
  passive := hb
  phase := hphase
  named := by
    obtain ⟨new, -, hnamed⟩ := run_recorded b (World.new tracks clock) events
    exact (hnamed fun _ _ h ↦ by cases h).1
  tracking := run_tracking b tracks clock events

/-! ### A refresh of one store -/

/-- Where a refresh of the store `n` has come to that has been left alone since the world `v`. -/
inductive Refreshing (b : Behaviour) (v : World) (id : CallId) (n : String) (wantsRecord : Bool)
    (events : List Event) : Prop
  | under {stage : Stage}
    (ht : (v.run b events).task? id = some (.refresh n stage wantsRecord))
    (hcourse : Course (Answered b v id n events) n (v.cache.standing n) stage
      ((v.run b events).cache.standing n))
    (hended : ∀ result time, ¬ Ended b v id n events result time)
    (hcount : answersIn events ≤ stage.rank)
  | over {a : Answers} {time : Option Nat} (ht : (v.run b events).task? id = none)
    (houtcome : (v.run b events).outcomes.lookup id =
      some (World.reply n wantsRecord ((a.verdict n).map some)))
    (hgiven : a.Given (Answered b v id n events) n)
    (hended : ∀ result time', Ended b v id n events result time' ↔
      result = (a.verdict n).map some ∧ time' = time)
    (hstanding : (v.run b events).cache.standing n = (v.cache.standing n).refreshed n a time)

theorem Refreshing.still {wantsRecord : Bool} (h : Refreshing b v id n wantsRecord events)
    (htask : (v.run b (events ++ [e])).task? id = (v.run b events).task? id)
    (houtcome : (v.run b (events ++ [e])).outcomes.lookup id =
      (v.run b events).outcomes.lookup id)
    (hstanding : (v.run b (events ++ [e])).cache.standing n = (v.run b events).cache.standing n)
    (hstill : (v.run b events).task? id = none ∨ ∃ time, e = .clock time) :
    Refreshing b v id n wantsRecord (events ++ [e]) := by
  rcases h with ⟨ht, hcourse, hended, hcount⟩ | ⟨ht, ho, hgiven, hended, hk⟩
  · refine .under (htask.trans ht) (hstanding ▸ hcourse.mono fun _ _ ↦ .concat)
      (fun result time h ↦ hended result time (h.of_still hstill)) ?_
    rcases hstill with hnone | ⟨time, rfl⟩
    · rw [ht] at hnone
      cases hnone
    · rwa [answersIn_concat_clock]
  · refine .over (htask.trans ht) (houtcome.trans ho) (hgiven.mono fun _ _ ↦ .concat)
      (fun result time ↦ ⟨fun h ↦ ?_, fun h ↦ ?_⟩) (hstanding.trans hk)
    · exact (hended result time).1 (h.of_still hstill)
    · exact ((hended result time).2 h).concat

theorem World.continueRefresh_ended (w : World) (wantsRecord : Bool)
    (result : Except CacheError (Option Store)) (c : Cache) :
    w.continueRefresh id n wantsRecord (.ended result, c) =
      (w.withCache c).finish id (World.reply n wantsRecord result) := by
  rcases result with err | - | s <;> rfl

theorem Refreshing.answered {wantsRecord : Bool} (h : Refreshing b v id n wantsRecord events)
    (hcalm : (v.run b events).cache.Calm b) (source : Source) :
    Refreshing b v id n wantsRecord (events ++ [.answer id source]) ∧
      (v.run b events).cache.Beside n (v.run b (events ++ [.answer id source])).cache := by
  rcases h with @⟨stage, ht, hcourse, hunended, hcount⟩ |
    @⟨a, time, ht, ho, hgiven, hended, hk⟩
  · have hrun : v.run b (events ++ [.answer id source]) =
        (v.run b events).continueRefresh id n wantsRecord
          (Refresh.resume b .upsert n stage source (v.run b events).cache) := by
      rw [World.run_concat, World.step_answer_of_some ht]
      rfl
    have hflight : (v.run b events).flight? (.call id) = some ⟨.upsert, n, stage⟩ := by
      rw [World.flight?, ht]
      rfl
    have hnext : Refresh.Outlook (Answered b v id n (events ++ [.answer id source])) n
        (v.cache.standing n) (v.run b events).cache stage.rank
        (Refresh.resume b .upsert n stage source (v.run b events).cache) :=
      Refresh.outlook hcalm (fun _ ↦ rfl) (hcourse.mono fun _ _ ↦ .concat)
        ⟨events, .upsert, List.prefix_rfl, hflight⟩
    generalize hr : Refresh.resume b .upsert n stage source (v.run b events).cache = next
      at hrun hnext
    rcases hnext with @⟨stage', d, hcourse', hbeside, hrank⟩ |
      @⟨a, -, d, hgiven, rfl, hstanding, hbeside, -⟩
    · have htask : (v.run b (events ++ [.answer id source])).task? id =
          some (.refresh n stage' wantsRecord) := by
        rw [hrun]
        exact (World.task?_wait _ id _ id).trans (if_pos rfl)
      refine ⟨.under htask ?_ (not_ended_of_waiting hflight (congrArg Prod.fst hr) hunended) ?_, ?_⟩
      · rw [hrun]
        exact hcourse'
      · rw [answersIn_concat_answer]
        omega
      · rw [hrun]
        exact hbeside
    · rw [World.continueRefresh_ended] at hrun
      have hended := ended_iff_of_ended hflight (congrArg Prod.fst hr) hunended
      refine ⟨.over ?_ ?_ hgiven hended ?_, ?_⟩ <;> rw [hrun]
      · exact (World.task?_finish _ id _ id).trans (if_pos rfl)
      · exact List.lookup_cons_self
      · exact hstanding
      · exact hbeside
  · have hrun : v.run b (events ++ [.answer id source]) = v.run b events := by
      rw [World.run_concat, World.step_answer_of_none ht]
    refine ⟨.still (.over ht ho hgiven hended hk) ?_ ?_ ?_ (Or.inl ht), ?_⟩ <;> rw [hrun]
    exact .of_eq rfl fun _ ↦ rfl

/-- Time passes, and nothing is done. -/
theorem World.run_clock (b : Behaviour) (v : World) (events : List Event) (time : Nat) :
    v.run b (events ++ [.clock time]) =
      (v.run b events).withCache { (v.run b events).cache with clock := time } := by
  rw [World.run_concat]
  rfl

/-- **A refresh left alone** is on its course or has ended as its answers mean, and no other store
is touched. -/
theorem Refreshing.run {wantsRecord : Bool} (hstart : Refreshing b v id n wantsRecord [])
    (hcalm : v.cache.Calm b) (halone : Alone id events) :
    Refreshing b v id n wantsRecord events ∧ v.cache.Beside n (v.run b events).cache := by
  induction events using List.reverseRecOn with
  | nil => exact ⟨hstart, .of_eq rfl fun _ ↦ rfl⟩
  | append_singleton events e ih =>
    obtain ⟨hbefore, he⟩ := halone.of_concat
    obtain ⟨h, hbeside⟩ := ih hbefore
    rcases he with ⟨source, rfl⟩ | ⟨time, rfl⟩
    · obtain ⟨hnext, hbeside'⟩ := h.answered (hcalm.run (hbeside.1.trans hcalm.phase)) source
      exact ⟨hnext, hbeside.trans hbeside'⟩
    · have hrun := World.run_clock b v events time
      refine ⟨h.still (by rw [hrun]; rfl) (by rw [hrun]; rfl) (by rw [hrun]; rfl)
        (Or.inr ⟨time, rfl⟩), hbeside.trans ?_⟩
      rw [hrun]
      exact .of_eq rfl fun _ ↦ rfl

end StoreCache
