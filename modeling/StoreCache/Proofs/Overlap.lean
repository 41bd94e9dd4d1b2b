import StoreCache.Proofs.Clear
import StoreCache.Proofs.Isolation
import StoreCache.Proofs.Settling

/-!
# Sweeps that overlap

Sweeps may be made by several callers, by the periodic task, one after the other or all at once. Let
nothing else happen from an instant on, and let one source answer every question. Then **any number
of sweeps comes to the same as one** (`overlap_of_sweeps`): the dictionaries end up the same, and
about each store the same events have been sent.

What carries the proof is that stores settle (`Standing.Settled`) and do not come back, whichever
sweep works on them. Each sweep vouches for the stores it is through with (`Covers`), and so a sweep
that returns vouches for all. Stores that were not subscribed in the beginning are never visited.
-/

namespace StoreCache

open Standing

variable {b : Behaviour} {source : Source} {w u u' : World} {e : Event} {n : String} {c d : Cache}

/-! ### Sweeps in flight -/

/-- The sweep that a waiting call is making. -/
def Task.sweep? : Task → Option Sweep
  | .sweep s => some s
  | _ => none

/-- The sweep that the periodic task is making. -/
def Background.sweep? : Background → Option Sweep
  | .sweeping s => some s
  | _ => none

/-- The sweep that an actor is making. -/
def World.sweep? (w : World) : Actor → Option Sweep
  | .call id => (w.task? id).bind Task.sweep?
  | .background => w.background.sweep?

/-- An actor whose sweep, if it comes to make one, begins after the world `w`. -/
def World.Fresh (w : World) : Actor → Prop
  | .call id => w.knows id = false
  | .background => w.background.sweep? = none

/-- In the event a sweep begins. -/
def World.Begins (w : World) (e : Event) : Prop :=
  (∃ id order, e = .call id (.sweep order) ∧ w.knows id = false) ∨
    ∃ order, e = .tick order ∧ w.background = .idle

/-- An event that begins a sweep, or answers from the source one that has begun after `w`, or only
passes time. -/
def OfSweeps (source : Source) (w : World) (e : Event) : Prop :=
  (∃ id order, e = .call id (.sweep order)) ∨ (∃ order, e = .tick order) ∨
    (∃ a, w.Fresh a ∧ e.answer? = some (a, source)) ∨ ∃ time, e = .clock time

namespace World

theorem sweep?_continueSweep (w : World) (id : CallId) (next : (Tally ⊕ Sweep) × Cache)
    (a : Actor) :
    (w.continueSweep id next).sweep? a = if a = .call id then next.1.getRight? else w.sweep? a := by
  obtain ⟨tally | s, c⟩ := next
  · rcases a with i | -
    · show (((w.withCache c).finish id _).task? i).bind _ = _
      rw [task?_finish]
      by_cases hi : i = id
      · simp [hi]
      · simp [hi, sweep?]
        rfl
    · rfl
  · rcases a with i | -
    · show (((w.withCache c).wait id _).task? i).bind _ = _
      rw [task?_wait]
      by_cases hi : i = id
      · simp [hi, Task.sweep?]
      · simp [hi, sweep?]
        rfl
    · rfl

theorem sweep?_continueBackground (w : World) (next : (Tally ⊕ Sweep) × Cache) (a : Actor) :
    (w.continueBackground next).sweep? a =
      if a = .background then next.1.getRight? else w.sweep? a := by
  obtain ⟨tally | s, c⟩ := next
  · rcases a with i | -
    · rfl
    · show Background.sweep? (if w.stopping then .ended else .idle) = none
      split <;> rfl
  · rcases a with i | - <;> rfl

end World

/-! ### What an event of sweeps does -/

/-- What an event does to the sweeps in flight: nothing, or it begins one of them, or answers one.
-/
inductive SweepTurn (b : Behaviour) (source : Source) (w u u' : World) : Prop
  | still (hphase : u'.cache.phase = u.cache.phase)
    (hstanding : ∀ n, u'.cache.standing n = u.cache.standing n)
    (hsweeps : ∀ a, u'.sweep? a = u.sweep? a)
  | began (a : Actor) (order : List String) (hfresh : w.Fresh a)
    (hcache : u'.cache = (Sweep.start (World.visiting order u.cache) u.cache).2)
    (hsweeps : ∀ a', u'.sweep? a' = if a' = a then
      (Sweep.start (World.visiting order u.cache) u.cache).1.getRight? else u.sweep? a')
  | answered (a : Actor) (s : Sweep) (hfresh : w.Fresh a) (hs : u.sweep? a = some s)
    (hcache : u'.cache = (s.resume b source u.cache).2)
    (hsweeps : ∀ a', u'.sweep? a' = if a' = a then
      (s.resume b source u.cache).1.getRight? else u.sweep? a')

/-- What there is to be seen of it, beside the cache, that there have been only sweeps since `w`. -/
structure SweepsSince (w u : World) : Prop where
  going : u.stopping = false
  knows : ∀ id, w.knows id = true → u.knows id = true
  suspended : ∀ s, w.background = .sweeping s → u.background = .sweeping s
  sweeps : ∀ id t, w.knows id = false → u.task? id = some t → ∃ s, t = .sweep s

namespace SweepsSince

theorem fresh_of_idle (h : SweepsSince w u) (hidle : u.background = .idle) :
    w.Fresh .background := by
  rcases hb : w.background with - | - | s | -
  case sweeping =>
    have hstays := h.suspended s hb
    rw [hidle] at hstays
    cases hstays
  all_goals
    show w.background.sweep? = none
    rw [hb]
    rfl

theorem fresh_of_new (h : SweepsSince w u) {id : CallId} (hnew : u.knows id = false) :
    w.Fresh (.call id) := by
  refine Bool.eq_false_iff.2 fun hknown ↦ ?_
  rw [h.knows id hknown] at hnew
  cases hnew

theorem continueSweep (h : SweepsSince w u) (id : CallId) (next : (Tally ⊕ Sweep) × Cache) :
    SweepsSince w (u.continueSweep id next) where
  going := by
    obtain ⟨tally | s, c⟩ := next <;> exact h.going
  knows i hi := (World.dealt_continueSweep u id next).knows (h.knows i hi)
  suspended s hs := (World.background_continueSweep u id next).trans (h.suspended s hs)
  sweeps i t hi ht := by
    have hd := World.dealt_continueSweep u id next
    by_cases hne : i = id
    · subst hne
      obtain ⟨s, -, rfl⟩ := hd.task?_self ht
      exact ⟨s, rfl⟩
    · exact h.sweeps i t hi (hd.task?_of_ne hne ▸ ht)

theorem continueBackground (h : SweepsSince w u) (hfresh : w.Fresh .background)
    (next : (Tally ⊕ Sweep) × Cache) : SweepsSince w (u.continueBackground next) where
  going := h.going
  knows := h.knows
  suspended s hs := by
    have hnone : w.background.sweep? = none := hfresh
    rw [hs] at hnone
    cases hnone
  sweeps := h.sweeps

end SweepsSince

namespace World

/-- **Of the events of sweeps each begins or answers one at most.** -/
theorem sweepTurn (he : OfSweeps source w e) (h : SweepsSince w u)
    (hphase : u.cache.phase = .started) :
    SweepTurn b source w u (u.step b e) ∧ SweepsSince w (u.step b e) := by
  have hstill : u.step b e = u →
      SweepTurn b source w u (u.step b e) ∧ SweepsSince w (u.step b e) := by
    intro hsame
    rw [hsame]
    exact ⟨.still rfl (fun _ ↦ rfl) fun _ ↦ rfl, h⟩
  rcases he with ⟨id, order, rfl⟩ | ⟨order, rfl⟩ | ⟨a, hfresh, he⟩ | ⟨time, rfl⟩
  · rcases hknows : u.knows id with - | -
    · rw [step_sweep order hknows hphase]
      exact ⟨.began (.call id) order (h.fresh_of_new hknows) (cache_continueSweep u id _)
        (sweep?_continueSweep u id _), h.continueSweep id _⟩
    · refine hstill ?_
      simp only [step, hknows, if_true]
  · rcases hb : u.background with - | - | s | -
    case idle =>
      have hstep : u.step b (.tick order) =
          u.continueBackground (Sweep.start (visiting order u.cache) u.cache) := by
        simp only [step, hb, h.going, Bool.false_eq_true, if_false]
      rw [hstep]
      exact ⟨.began .background order (h.fresh_of_idle hb) rfl (sweep?_continueBackground u _),
        h.continueBackground (h.fresh_of_idle hb) _⟩
    all_goals
      refine hstill ?_
      simp only [step, hb]
  · rcases a with id | -
    · obtain rfl := Event.eq_answer he
      rcases ht : u.task? id with - | t
      · exact hstill (step_answer_of_none ht)
      · obtain ⟨s, rfl⟩ := h.sweeps id t hfresh ht
        have hs : u.sweep? (.call id) = some s := by
          show (u.task? id).bind Task.sweep? = some s
          rw [ht]
          rfl
        rw [step_answer_of_some ht]
        exact ⟨.answered (.call id) s hfresh hs (cache_continueSweep u id _)
          (sweep?_continueSweep u id _), h.continueSweep id _⟩
    · obtain rfl := Event.eq_backgroundAnswer he
      rcases hb : u.background with - | - | s | -
      case sweeping =>
        have hs : u.sweep? .background = some s := by
          show u.background.sweep? = some s
          rw [hb]
          rfl
        have hstep : u.step b (.backgroundAnswer source) =
            u.continueBackground (s.resume b source u.cache) := by
          simp only [step, hb]
        rw [hstep]
        exact ⟨.answered .background s hfresh hs rfl (sweep?_continueBackground u _),
          h.continueBackground hfresh _⟩
      all_goals
        refine hstill ?_
        simp only [step, hb]
  · exact ⟨.still rfl (fun _ ↦ rfl) fun _ ↦ rfl, h.going, h.knows, h.suspended, h.sweeps⟩

end World

/-! ### What sweeps vouch for -/

/-- The stores have gone on from `c` to `d`, as seen from `w`, and the others stand as they did. -/
structure Moved (source : Source) (w : World) (c d : Cache) : Prop where
  onward : ∀ n, w.cache.stores.get? n ≠ none →
    Onward n (source.about n) (w.cache.standing n) (c.standing n) (d.standing n)
  others : ∀ n, w.cache.stores.get? n = none → d.standing n = c.standing n

/-- Every store that was subscribed in `w` has settled. -/
def AllSettled (source : Source) (w : World) (c : Cache) : Prop :=
  ∀ n, w.cache.stores.get? n ≠ none →
    Settled n (source.about n) (w.cache.standing n) (c.standing n)

/-- A sweep visits stores that were subscribed in `w`, knows of the store in hand what it has been
told, and vouches for all others that they have settled. -/
structure Covers (source : Source) (w : World) (c : Cache) (s : Sweep) : Prop where
  subscribed : ∀ n ∈ s.current :: s.rest, w.cache.stores.get? n ≠ none
  underway : Underway source s.current (w.cache.standing s.current) (c.standing s.current) s.stage
  behind : ∀ n, w.cache.stores.get? n ≠ none → n ∉ s.current :: s.rest →
    Settled n (source.about n) (w.cache.standing n) (c.standing n)

theorem AllSettled.moved (h : AllSettled source w c) (hmoved : Moved source w c d) :
    AllSettled source w d :=
  fun n hn ↦ (hmoved.onward n hn).settled (h n hn)

theorem Covers.moved {s : Sweep} (h : Covers source w c s) (hmoved : Moved source w c d) :
    Covers source w d s where
  subscribed := h.subscribed
  underway := h.underway.onward (hmoved.onward s.current (h.subscribed _ List.mem_cons_self))
  behind n hn hbehind := (hmoved.onward n hn).settled (h.behind n hn hbehind)

/-- The world `u` has come of `w` by sweeps that are answered by the source. -/
structure Abreast (b : Behaviour) (source : Source) (w u : World) : Prop where
  calm : u.cache.Calm b
  since : SweepsSince w u
  others : ∀ n, w.cache.stores.get? n = none → u.cache.standing n = w.cache.standing n
  midway : ∀ n, w.cache.stores.get? n ≠ none →
    Midway n (source.about n) (w.cache.standing n) (u.cache.standing n)
  covers : ∀ a s, w.Fresh a → u.sweep? a = some s → Covers source w u.cache s

namespace Abreast

/-- No store comes in. -/
theorem subscribed (h : Abreast b source w u) (hin : u.cache.stores.get? n ≠ none) :
    w.cache.stores.get? n ≠ none := by
  intro hout
  have hsame : u.cache.stores.get? n = w.cache.stores.get? n :=
    congrArg (fun k ↦ k.shelf.store) (h.others n hout)
  exact hin (hsame.trans hout)

/-- A store that has left has settled. -/
theorem settled_of_out (h : Abreast b source w u) (hin : w.cache.stores.get? n ≠ none)
    (hout : u.cache.stores.get? n = none) :
    Settled n (source.about n) (w.cache.standing n) (u.cache.standing n) :=
  (h.midway n hin).settled hin hout

theorem moved_of_standing (h : Abreast b source w u)
    (hstanding : ∀ n, d.standing n = u.cache.standing n) : Moved source w u.cache d where
  onward n hn := .of_eq (h.midway n hn) (hstanding n)
  others n _ := hstanding n

/-- What has moved, and what the sweeps in flight vouch for then. -/
theorem of_moved (h : Abreast b source w u) (hsince : SweepsSince w (u.step b e))
    (hphase : (u.step b e).cache.phase = u.cache.phase)
    (hmoved : Moved source w u.cache (u.step b e).cache)
    (hcovers : ∀ a s, w.Fresh a → (u.step b e).sweep? a = some s →
      u.sweep? a = some s ∨ Covers source w (u.step b e).cache s) :
    Abreast b source w (u.step b e) where
  calm := by
    have hcalm : (u.run b [e]).cache.Calm b := h.calm.run (hphase.trans h.calm.phase)
    exact hcalm
  since := hsince
  others n hn := (hmoved.others n hn).trans (h.others n hn)
  midway n hn := (hmoved.onward n hn).midway
  covers a s hfresh hs := by
    rcases hcovers a s hfresh hs with hbefore | hnow
    · exact (h.covers a s hfresh hbefore).moved hmoved
    · exact hnow

end Abreast

/-- A sweep is in flight, or all stores have settled. -/
def Busy (source : Source) (w u : World) : Prop :=
  (∃ a s, w.Fresh a ∧ u.sweep? a = some s) ∨ AllSettled source w u.cache

/-- What is so in `u` once a sweep has begun, or once all stores have settled, is so in `u'`. -/
structure Persists (source : Source) (w u u' : World) : Prop where
  busy : Busy source w u → Busy source w u'
  settled : AllSettled source w u.cache → AllSettled source w u'.cache

namespace Abreast

/-- Nothing goes on but time. -/
theorem still (h : Abreast b source w u) (hsince : SweepsSince w (u.step b e))
    (hphase : (u.step b e).cache.phase = u.cache.phase)
    (hstanding : ∀ n, (u.step b e).cache.standing n = u.cache.standing n)
    (hsweeps : ∀ a, (u.step b e).sweep? a = u.sweep? a) :
    Abreast b source w (u.step b e) ∧ Persists source w u (u.step b e) := by
  have hmoved := h.moved_of_standing hstanding
  refine ⟨h.of_moved hsince hphase hmoved fun a s _ hs ↦ Or.inl (hsweeps a ▸ hs), ?_,
    fun hsettled ↦ hsettled.moved hmoved⟩
  rintro (⟨a, s, hfresh, hs⟩ | hsettled)
  · exact Or.inl ⟨a, s, hfresh, (hsweeps a).trans hs⟩
  · exact Or.inr (hsettled.moved hmoved)

/-- **A sweep begins**: it visits what is subscribed, and all else has settled. -/
theorem began (h : Abreast b source w u) (hsince : SweepsSince w (u.step b e)) {a : Actor}
    (order : List String) (hfresh : w.Fresh a)
    (hcache : (u.step b e).cache = (Sweep.start (World.visiting order u.cache) u.cache).2)
    (hsweeps : ∀ a', (u.step b e).sweep? a' = if a' = a then
      (Sweep.start (World.visiting order u.cache) u.cache).1.getRight? else u.sweep? a') :
    Abreast b source w (u.step b e) ∧ Busy source w (u.step b e) ∧
      Moved source w u.cache (u.step b e).cache := by
  have hvisited : ∀ n, n ∈ World.visiting order u.cache ↔ u.cache.stores.get? n ≠ none :=
    fun n ↦ Cache.mem_visiting_iff
  generalize World.visiting order u.cache = names at hcache hsweeps hvisited
  have hself := hsweeps a
  rw [if_pos rfl] at hself
  have hsame : (u.step b e).cache.phase = u.cache.phase ∧
      ∀ n, (u.step b e).cache.standing n = u.cache.standing n := by
    rw [hcache]
    rcases names with - | ⟨m, rest⟩
    · exact ⟨rfl, fun _ ↦ rfl⟩
    · exact ⟨rfl, fun n ↦ Cache.standing_note rfl n⟩
  have hmoved := h.moved_of_standing hsame.2
  have hothers : ∀ a' s, a' ≠ a → (u.step b e).sweep? a' = some s → u.sweep? a' = some s := by
    intro a' s hne hs
    rwa [hsweeps, if_neg hne] at hs
  rcases names with - | ⟨m, rest⟩
  · -- Nothing is subscribed any more, so the sweep is over as it begins.
    refine ⟨h.of_moved hsince hsame.1 hmoved fun a' s _ hs ↦ ?_, Or.inr fun n hn ↦ ?_, hmoved⟩
    · by_cases hne : a' = a
      · rw [hne, hself] at hs
        cases hs
      · exact Or.inl (hothers a' s hne hs)
    · have hout : u.cache.stores.get? n = none :=
        Classical.byContradiction fun hin ↦ by simpa using (hvisited n).2 hin
      exact (hmoved.onward n hn).settled (h.settled_of_out hn hout)
  · have hcovers : Covers source w (u.step b e).cache ⟨m, .placement, rest, .zero⟩ := by
      refine ⟨fun n hn ↦ h.subscribed ((hvisited n).1 hn), .placement, fun n hn hbehind ↦ ?_⟩
      have hout : u.cache.stores.get? n = none :=
        Classical.byContradiction fun hin ↦ hbehind ((hvisited n).2 hin)
      exact (hmoved.onward n hn).settled (h.settled_of_out hn hout)
    refine ⟨h.of_moved hsince hsame.1 hmoved fun a' s _ hs ↦ ?_, Or.inl ⟨a, _, hfresh, hself⟩,
      hmoved⟩
    by_cases hne : a' = a
    · rw [hne, hself] at hs
      obtain rfl := Option.some.inj hs
      exact Or.inr hcovers
    · exact Or.inl (hothers a' s hne hs)

/-- **A sweep is answered**: the store in hand goes on, and one that the sweep is through with has
settled. -/
theorem answered (h : Abreast b source w u) (hsince : SweepsSince w (u.step b e)) {a : Actor}
    {s : Sweep} (hfresh : w.Fresh a) (hs : u.sweep? a = some s)
    (hcache : (u.step b e).cache = (s.resume b source u.cache).2)
    (hsweeps : ∀ a', (u.step b e).sweep? a' = if a' = a then
      (s.resume b source u.cache).1.getRight? else u.sweep? a') :
    Abreast b source w (u.step b e) ∧ Persists source w u (u.step b e) := by
  have hcovers := h.covers a s hfresh hs
  have hin : w.cache.stores.get? s.current ≠ none := hcovers.subscribed _ List.mem_cons_self
  obtain ⟨hbeside, honward, hnext⟩ :=
    Sweep.resume_underway h.calm hin (h.midway s.current hin) hcovers.underway
  rw [← hcache] at hbeside honward hnext
  have hself := hsweeps a
  rw [if_pos rfl] at hself
  generalize (s.resume b source u.cache).1 = next at hself hsweeps hnext
  have hmoved : Moved source w u.cache (u.step b e).cache := by
    refine ⟨fun n hn ↦ ?_, fun n hn ↦ ?_⟩
    · by_cases hne : n = s.current
      · exact hne ▸ honward
      · exact .of_eq (h.midway n hn) (hbeside.2 n hne)
    · exact hbeside.2 n fun hne ↦ hin (hne ▸ hn)
  -- What was behind has settled, and so has the store in hand once the sweep turns away from it.
  have hbehind : Settled s.current (source.about s.current) (w.cache.standing s.current)
      ((u.step b e).cache.standing s.current) → ∀ n, w.cache.stores.get? n ≠ none → n ∉ s.rest →
        Settled n (source.about n) (w.cache.standing n) ((u.step b e).cache.standing n) := by
    intro hsettled n hn hrest
    by_cases hne : n = s.current
    · exact hne ▸ hsettled
    · exact (hcovers.moved hmoved).behind n hn (by simp [hne, hrest])
  have hcovers' : ∀ s', next = .inr s' → Covers source w (u.step b e).cache s' := by
    rintro s' rfl
    rcases hnext with ⟨stage, hunder⟩ | @⟨hsettled, m, rest, hrest, tally⟩
    · exact ⟨hcovers.subscribed, hunder, (hcovers.moved hmoved).behind⟩
    · refine ⟨fun n hn ↦ ?_, .placement, fun n hn hbehind' ↦ ?_⟩
      · exact hcovers.subscribed n (List.mem_cons_of_mem _ (hrest ▸ hn))
      · exact hbehind hsettled n hn (hrest ▸ hbehind')
  refine ⟨h.of_moved hsince hbeside.1 hmoved fun a' s' _ hs' ↦ ?_, ?_,
    fun hsettled ↦ hsettled.moved hmoved⟩
  · rw [hsweeps] at hs'
    split at hs'
    · refine Or.inr (hcovers' s' ?_)
      rcases next with tally | s''
      · cases hs'
      · exact congrArg Sum.inr (Option.some.inj hs')
    · exact Or.inl hs'
  · rintro (⟨a', s', hfresh', hs'⟩ | hsettled)
    · by_cases hne : a' = a
      · rcases next with tally | s''
        · rcases hnext with - | - | ⟨hsettled, hrest⟩
          exact Or.inr fun n hn ↦ hbehind hsettled n hn (by simp [hrest])
        · exact Or.inl ⟨a, s'', hfresh, hself⟩
      · refine Or.inl ⟨a', s', hfresh', ?_⟩
        rw [hsweeps, if_neg hne]
        exact hs'
    · exact Or.inr (hsettled.moved hmoved)

/-- **An event of sweeps** keeps all this. -/
theorem step (h : Abreast b source w u) (he : OfSweeps source w e) :
    Abreast b source w (u.step b e) ∧ Persists source w u (u.step b e) := by
  obtain ⟨hturn, hsince⟩ := World.sweepTurn (b := b) he h.since h.calm.phase
  rcases hturn with ⟨hphase, hstanding, hsweeps⟩ | ⟨a, order, hfresh, hcache, hsweeps⟩ |
    ⟨a, s, hfresh, hs, hcache, hsweeps⟩
  · exact h.still hsince hphase hstanding hsweeps
  · obtain ⟨habreast, hbusy, hmoved⟩ := h.began hsince order hfresh hcache hsweeps
    exact ⟨habreast, fun _ ↦ hbusy, fun hsettled ↦ hsettled.moved hmoved⟩
  · exact h.answered hsince hfresh hs hcache hsweeps

theorem busy_of_begins (h : Abreast b source w u) (he : OfSweeps source w e)
    (hbegins : u.Begins e) : Busy source w (u.step b e) := by
  obtain ⟨-, hsince⟩ := World.sweepTurn (b := b) he h.since h.calm.phase
  rcases hbegins with ⟨id, order, rfl, hnew⟩ | ⟨order, rfl, hidle⟩
  · have hstep := World.step_sweep (b := b) order hnew h.calm.phase
    refine (h.began hsince order (h.since.fresh_of_new hnew) ?_ ?_).2.1 <;> rw [hstep]
    · exact World.cache_continueSweep u id _
    · exact World.sweep?_continueSweep u id _
  · have hstep : u.step b (.tick order) =
        u.continueBackground (Sweep.start (World.visiting order u.cache) u.cache) := by
      simp only [World.step, hidle, h.since.going, Bool.false_eq_true, if_false]
    refine (h.began hsince order (h.since.fresh_of_idle hidle) ?_ ?_).2.1 <;> rw [hstep]
    · rfl
    · exact World.sweep?_continueBackground u _

theorem run {events : List Event} (h : Abreast b source w u)
    (hevents : ∀ e ∈ events, OfSweeps source w e) :
    Abreast b source w (u.run b events) ∧ Persists source w u (u.run b events) := by
  induction events generalizing u with
  | nil => exact ⟨h, id, id⟩
  | cons e events ih =>
    obtain ⟨hnext, hpersists⟩ := h.step (hevents e List.mem_cons_self)
    obtain ⟨hlast, hpersists'⟩ := ih hnext fun e' he' ↦ hevents e' (List.mem_cons_of_mem e he')
    exact ⟨hlast, fun hb ↦ hpersists'.busy (hpersists.busy hb),
      fun hs ↦ hpersists'.settled (hpersists.settled hs)⟩

/-- **When all sweeps are over that have begun, and one has, then all stores have settled.** -/
theorem settled_of_over {events : List Event} (h : Abreast b source w u)
    (hevents : ∀ e ∈ events, OfSweeps source w e)
    (hbegun : ∃ earlier e, earlier ++ [e] <+: events ∧ (u.run b earlier).Begins e)
    (hover : ∀ a, w.Fresh a → (u.run b events).sweep? a = none) :
    AllSettled source w (u.run b events).cache := by
  obtain ⟨earlier, e, ⟨later, rfl⟩, hbegins⟩ := hbegun
  have hearlier : ∀ e' ∈ earlier, OfSweeps source w e' := fun e' he' ↦
    hevents e' (List.mem_append_left later (List.mem_append_left [e] he'))
  have he : OfSweeps source w e :=
    hevents e (List.mem_append_left later (List.mem_append_right earlier List.mem_cons_self))
  have hlater : ∀ e' ∈ later, OfSweeps source w e' := fun e' he' ↦
    hevents e' (List.mem_append_right _ he')
  have hbefore := (h.run hearlier).1
  have hbusy : Busy source w ((u.run b (earlier ++ [e])).run b later) := by
    rw [World.run_concat]
    exact ((hbefore.step he).1.run hlater).2.busy (hbefore.busy_of_begins he hbegins)
  rw [World.run_append] at hover ⊢
  rcases hbusy with ⟨a, s, hfresh, hs⟩ | hsettled
  · rw [hover a hfresh] at hs
    cases hs
  · exact hsettled

end Abreast

/-! ### Worlds in use -/

namespace World

theorem task?_of_new {id : CallId} (hnew : w.knows id = false) : w.task? id = none := by
  simp only [knows, Bool.or_eq_false_iff] at hnew
  refine Option.not_isSome_iff_eq_none.1 ?_
  show ¬ (w.tasks.lookup id).isSome = true
  rw [hnew.1.1]
  exact Bool.false_ne_true

theorem stopping_continueRefresh (w : World) (id : CallId) (name : String) (wantsRecord : Bool)
    (next : Progress × Cache) :
    (w.continueRefresh id name wantsRecord next).stopping = w.stopping := by
  obtain ⟨stage | err | _ | s, c⟩ := next <;> rfl

theorem stopping_continueSweep (w : World) (id : CallId) (next : (Tally ⊕ Sweep) × Cache) :
    (w.continueSweep id next).stopping = w.stopping := by
  obtain ⟨tally | s, c⟩ := next <;> rfl

/-- Only a call to clear the cache tells the periodic task to stop. -/
theorem stopping_call {id : CallId} {op : Operation} (hop : ∀ order, op ≠ .clear order) :
    (w.call b id op).stopping = w.stopping := by
  have hrefresh : ∀ name wantsRecord,
      (w.beginRefresh id name wantsRecord).stopping = w.stopping := by
    intro name wantsRecord
    unfold beginRefresh
    split <;> rfl
  have hschema : ∀ name q record, (w.beginSchema id name q record).stopping = w.stopping := by
    intro name q record
    unfold beginSchema
    split
    · rfl
    · split <;> rfl
  rcases op with - | order | name | name | name | order | ⟨name, q⟩ | l | l
  · simp only [call]
    split <;> rfl
  · exact absurd rfl (hop order)
  · simp only [call]
    split
    · rfl
    · rfl
    · exact hrefresh name false
  · rfl
  · exact hrefresh name true
  · simp only [call]
    split
    · rfl
    · exact stopping_continueSweep w id _
  · simp only [call]
    split
    · rfl
    · split
      · split
        · rfl
        · split
          · rfl
          · exact hschema name q _
      · exact hschema name q none
  · rfl
  · rfl

theorem stopping_answer (w : World) (id : CallId) (source : Source) (t : Task) :
    (w.answer b id source t).stopping = w.stopping := by
  cases t with
  | refresh name stage wantsRecord => exact stopping_continueRefresh w id name wantsRecord _
  | sweep s => exact stopping_continueSweep w id _
  | schema => rfl
  | clear => rfl

/-- The periodic task is told to stop only as the cache is closed. -/
theorem stopping_step (w : World) (e : Event) :
    (w.step b e).stopping = w.stopping ∨ (w.step b e).stopping = true ∧ ∃ id order,
      e = .call id (.clear order) ∧ w.knows id = false ∧ w.cache.phase ≠ .cleared := by
  cases e with
  | call id op =>
    by_cases hclear : w.knows id = false ∧ ∃ order, op = .clear order
    · obtain ⟨hnew, order, rfl⟩ := hclear
      by_cases hphase : w.cache.phase = .cleared
      · refine Or.inl ?_
        rw [step_call hnew, call, if_pos hphase]
        rfl
      · refine Or.inr ⟨?_, id, order, rfl, hnew, hphase⟩
        rcases World.step_clear (b := b) order hnew hphase with hw | hw <;> rw [hw] <;> rfl
    · refine Or.inl ?_
      simp only [step]
      split
      · rfl
      · rename_i hknows
        have hnew : w.knows id = false := by simpa using hknows
        exact stopping_call fun order hop ↦ hclear ⟨hnew, order, hop⟩
  | answer id source =>
    simp only [step]
    split
    · exact Or.inl (stopping_answer w id source _)
    · exact Or.inl rfl
  | abandon id =>
    simp only [step]
    split <;> exact Or.inl rfl
  | proceed id =>
    simp only [step]
    split <;> exact Or.inl rfl
  | graceOver id =>
    simp only [step]
    split <;> exact Or.inl rfl
  | tick order =>
    simp only [step]
    split
    · split <;> exact Or.inl rfl
    · exact Or.inl rfl
  | backgroundAnswer source =>
    simp only [step]
    split <;> exact Or.inl rfl
  | backgroundStop =>
    simp only [step]
    split
    · split <;> exact Or.inl rfl
    · exact Or.inl rfl
  | clock time => exact Or.inl rfl

/-- A task that has been told to stop belongs to a cache that is closed. -/
theorem phase_cleared_of_stopping {tracks : Bool} {clock : Nat} {events : List Event}
    (hstopping : ((World.new tracks clock).run b events).stopping = true) :
    ((World.new tracks clock).run b events).cache.phase = .cleared := by
  induction events using List.reverseRecOn with
  | nil => cases hstopping
  | append_singleton events e ih =>
    rw [run_concat] at hstopping ⊢
    rcases stopping_step ((World.new tracks clock).run b events) e with
      hsame | ⟨-, id, order, rfl, hnew, hphase⟩
    · exact phase_cleared_run (ih (hsame.symm.trans hstopping)) [e]
    · exact phase_cleared_step_clear order hnew hphase

/-- A world in use has not been told to stop. -/
theorem going_of_run {tracks : Bool} {clock : Nat} {events : List Event}
    (hphase : ((World.new tracks clock).run b events).cache.phase = .started) :
    ((World.new tracks clock).run b events).stopping = false := by
  refine Bool.eq_false_iff.2 fun hstopping ↦ ?_
  rw [phase_cleared_of_stopping hstopping] at hphase
  cases hphase

end World

/-- Nothing has happened since, so nothing is in flight. -/
theorem abreast_self (hcalm : w.cache.Calm b) (hgoing : w.stopping = false) :
    Abreast b source w w where
  calm := hcalm
  since := by
    refine ⟨hgoing, fun _ ↦ id, fun _ ↦ id, fun id t hnew ht ↦ ?_⟩
    rw [World.task?_of_new hnew] at ht
    cases ht
  others _ _ := rfl
  midway _ _ := Or.inl (.refl _)
  covers a s hfresh hs := by
    rcases a with id | -
    · rw [World.sweep?, World.task?_of_new hfresh] at hs
      cases hs
    · have hnone : w.background.sweep? = none := hfresh
      rw [World.sweep?, hnone] at hs
      cases hs

/-! ### The theorem -/

/-- The dictionaries are the same if every store stands alike. -/
theorem Cache.dictionaries_eq_of_like (h : ∀ n, (d.standing n).Like (c.standing n)) :
    d.stores = c.stores ∧ d.placements = c.placements ∧ d.schemas = c.schemas :=
  ⟨Dict.ext_get? fun n ↦ congrArg Shelf.store (h n).shelf,
    Dict.ext_get? fun n ↦ congrArg Shelf.placement (h n).shelf,
    Dict.ext_get? fun n ↦ congrArg Shelf.schemas (h n).shelf⟩

/-- Two worlds that have come of `w`, in which all stores have settled, are alike. -/
theorem Abreast.like {v : World} (h : Abreast b source w u) (hsettled : AllSettled source w u.cache)
    (hothers : ∀ n, w.cache.stores.get? n = none → v.cache.standing n = w.cache.standing n)
    (hswept : ∀ n, w.cache.stores.get? n ≠ none →
      ∃ time, v.cache.standing n = (w.cache.standing n).swept n (source.about n) time)
    (n : String) :
    (u.cache.standing n).Like (v.cache.standing n) := by
  by_cases hn : w.cache.stores.get? n = none
  · rw [h.others n hn, hothers n hn]
    exact .refl _
  · obtain ⟨time, htime⟩ := hswept n hn
    rw [htime]
    exact (hsettled n hn).trans (like_swept _ n _ none time)

/-- What nobody hears of is no news. -/
theorem told_eq_nil_of_newsOf {events : List Event} {new : List Entry}
    (hb : b.Passive w.cache.journal)
    (hnew : (w.run b events).cache.journal = new ++ w.cache.journal)
    (hnews : ∀ n, newsOf n (w.run b events).cache.journal = newsOf n w.cache.journal)
    (l : ListenerId) : told l new = [] := by
  obtain ⟨new', hjournal, hsubset, -⟩ := run_heard hb events
  obtain rfl : new' = new := List.append_cancel_right (hjournal.symm.trans hnew)
  have hnothing : news new' = [] := by
    refine List.eq_nil_iff_forall_not_mem.2 fun x hx ↦ ?_
    have hsame := hnews x.2.name
    rw [hnew, newsOf_append] at hsame
    have hnil : newsOf x.2.name new' = [] := List.append_cancel_right (hsame.trans rfl)
    have hmem : x ∈ newsOf x.2.name new' := List.mem_filter.2 ⟨hx, by simp⟩
    rw [hnil] at hmem
    cases hmem
  exact List.eq_nil_iff_forall_not_mem.2 fun x hx ↦ by simpa [hnothing] using hsubset l hx

/-- **Overlapping sweeps come to the same as one.** Take any world in use that a run leads to, with
listeners that are passive from then on, and let one source answer every question.

Let sweeps be begun by calls and by ticks of the periodic task, any number of them but at least one,
one after the other or at once, let them be answered in any order until all are over, and let
nothing else happen (`events`). Then the dictionaries are the same as after a single sweep that is
left alone (`after`), the same events have been sent about each store, and every listener registered
throughout has been told of them in the same order. And from then on no sweep changes the
dictionaries any more, or sends anybody an event (`more`). -/
theorem overlap_of_sweeps (b : Behaviour) (tracks : Bool) (clock : Nat) (before : List Event)
    (source : Source) (id : CallId) (order : List String) (after events more : List Event)
    (hb : b.Passive ((World.new tracks clock).run b before).cache.journal)
    (hphase : ((World.new tracks clock).run b before).cache.phase = .started)
    (hnew : ((World.new tracks clock).run b before).knows id = false)
    (halone : AloneWith source id after)
    (hlong : 3 * ((World.new tracks clock).run b before).cache.stores.size ≤ answersIn after)
    (hevents : ∀ e ∈ events, OfSweeps source ((World.new tracks clock).run b before) e)
    (hbegun : ∃ earlier e, earlier ++ [e] <+: events ∧
      (((World.new tracks clock).run b before).run b earlier).Begins e)
    (hover : ∀ a, ((World.new tracks clock).run b before).Fresh a →
      (((World.new tracks clock).run b before).run b events).sweep? a = none)
    (hmore : ∀ e ∈ more, OfSweeps source ((World.new tracks clock).run b before) e) :
    let w := (World.new tracks clock).run b before
    let one := (w.step b (.call id (.sweep order))).run b after
    let u := w.run b events
    let v := u.run b more
    (u.cache.stores = one.cache.stores ∧ u.cache.placements = one.cache.placements ∧
      u.cache.schemas = one.cache.schemas) ∧
    (∀ n, newsOf n u.cache.journal = newsOf n one.cache.journal) ∧
    (∀ l ∈ w.cache.roster, ∀ new new₁, u.cache.journal = new ++ w.cache.journal →
      one.cache.journal = new₁ ++ w.cache.journal → .unregistered l ∉ new →
      .unregistered l ∉ new₁ → ∀ n,
        (told l new).filter (·.2.name = n) = (told l new₁).filter (·.2.name = n)) ∧
    (v.cache.stores = u.cache.stores ∧ v.cache.placements = u.cache.placements ∧
      v.cache.schemas = u.cache.schemas) ∧
    ∀ new l, v.cache.journal = new ++ u.cache.journal → told l new = [] := by
  intro w one u v
  have hcalm : w.cache.Calm b := calm_of_run hb hphase
  have hself : Abreast b source w w := abreast_self hcalm (World.going_of_run hphase)
  have hu : Abreast b source w u := (hself.run hevents).1
  have hsettled : AllSettled source w u.cache := hself.settled_of_over hevents hbegun hover
  obtain ⟨-, hvisited, hothers⟩ := sweep_of_source order hcalm hnew halone hlong
  have hone : ∀ n, (u.cache.standing n).Like (one.cache.standing n) :=
    hu.like hsettled hothers fun n hn ↦ (hvisited n hn).imp fun _ h ↦ h.1
  obtain ⟨hv, hpersists⟩ := hu.run hmore
  have hagain : ∀ n, (v.cache.standing n).Like (u.cache.standing n) := by
    intro n
    by_cases hn : w.cache.stores.get? n = none
    · rw [hv.others n hn, hu.others n hn]
      exact .refl _
    · exact (hpersists.settled hsettled n hn).trans (hsettled n hn).symm
  refine ⟨Cache.dictionaries_eq_of_like hone, fun n ↦ (hone n).news, ?_,
    Cache.dictionaries_eq_of_like hagain, fun new l hjournal ↦ ?_⟩
  · intro l hl new new₁ hjournal hjournal₁ hstays hstays₁ n
    have hnodup : w.cache.roster.Nodup := nodup_roster_of_run b tracks clock before
    have htold : (told l new).filter (·.2.name = n) = newsOf n new :=
      told_about events hb hnodup hl hjournal hstays n
    have htold₁ : (told l new₁).filter (·.2.name = n) = newsOf n new₁ :=
      told_about (.call id (.sweep order) :: after) hb hnodup hl hjournal₁ hstays₁ n
    have hsame : newsOf n u.cache.journal = newsOf n one.cache.journal := (hone n).news
    rw [hjournal, hjournal₁, newsOf_append, newsOf_append] at hsame
    rw [htold, htold₁, List.append_cancel_right hsame]
  · exact told_eq_nil_of_newsOf hu.calm.passive hjournal (fun n ↦ (hagain n).news) l

/-- A sweep by a call and one by the periodic task take turns. -/
def turnsOfTwo : List Event :=
  [.call 4 (.sweep []), .tick [],
    .answer 4 .lossy, .backgroundAnswer .lossy, .answer 4 .lossy, .backgroundAnswer .lossy,
    .answer 4 .lossy, .backgroundAnswer .lossy, .answer 4 .lossy, .backgroundAnswer .lossy]

/-- A third sweep. -/
def thirdSweep : List Event := .call 5 (.sweep []) :: List.replicate 3 (.answer 5 .lossy)

/-- Two sweeps at once come to what one comes to, and a third changes nothing. -/
theorem stores_of_turnsOfTwo :
    (((World.new true 0).run .silent twoSubscriptions).run .silent turnsOfTwo).cache.stores =
        (lossySweep []).cache.stores ∧
      ((((World.new true 0).run .silent twoSubscriptions).run .silent turnsOfTwo).run .silent
        thirdSweep).cache.stores =
          (((World.new true 0).run .silent twoSubscriptions).run .silent turnsOfTwo).cache.stores ∧
      (((World.new true 0).run .silent twoSubscriptions).run .silent turnsOfTwo).cache.shelf
        "orders" = .bare := by
  have halone : AloneWith .lossy 4 (List.replicate 6 (.answer 4 .lossy)) :=
    fun e he ↦ Or.inl (List.eq_of_mem_replicate he)
  let w := (World.new true 0).run .silent twoSubscriptions
  have hcall : w.Fresh (.call 4) := by
    show w.knows 4 = false
    decide
  have hperiodic : w.Fresh .background := by
    show w.background.sweep? = none
    decide
  have hanswer : OfSweeps .lossy w (.answer 4 .lossy) :=
    Or.inr (Or.inr (Or.inl ⟨_, hcall, rfl⟩))
  have hbackground : OfSweeps .lossy w (.backgroundAnswer .lossy) :=
    Or.inr (Or.inr (Or.inl ⟨_, hperiodic, rfl⟩))
  have hevents : ∀ e ∈ turnsOfTwo, OfSweeps .lossy w e := by
    intro e he
    simp only [turnsOfTwo, List.mem_cons, List.not_mem_nil, or_false] at he
    rcases he with rfl | rfl | rfl | rfl | rfl | rfl | rfl | rfl | rfl | rfl
    · exact Or.inl ⟨4, [], rfl⟩
    · exact Or.inr (Or.inl ⟨[], rfl⟩)
    all_goals first | exact hanswer | exact hbackground
  have hmore : ∀ e ∈ thirdSweep, OfSweeps .lossy w e := by
    intro e he
    rcases List.mem_cons.1 he with rfl | he
    · exact Or.inl ⟨5, [], rfl⟩
    · have hnew : w.Fresh (.call 5) := by
        show w.knows 5 = false
        decide
      rw [List.eq_of_mem_replicate he]
      exact Or.inr (Or.inr (Or.inl ⟨_, hnew, rfl⟩))
  have hbegun : ∃ earlier e, earlier ++ [e] <+: turnsOfTwo ∧ (w.run .silent earlier).Begins e :=
    ⟨[], .call 4 (.sweep []), ⟨_, rfl⟩, Or.inl ⟨4, [], rfl, by decide⟩⟩
  have hover : ∀ a, w.Fresh a → (w.run .silent turnsOfTwo).sweep? a = none := by
    rintro (id | -) -
    · have htasks : (w.run .silent turnsOfTwo).tasks = [] := List.length_eq_zero_iff.1 (by decide)
      rw [World.sweep?, World.task?, htasks]
      rfl
    · show (w.run .silent turnsOfTwo).background.sweep? = none
      decide
  obtain ⟨⟨hone, -, -⟩, -, -, ⟨hagain, -, -⟩, -⟩ := overlap_of_sweeps .silent true 0
    twoSubscriptions .lossy 4 [] (List.replicate 6 (.answer 4 .lossy)) turnsOfTwo thirdSweep
    (passive_silent _) (by decide) (by decide) halone (by decide) hevents hbegun hover hmore
  exact ⟨hone, hagain, by decide⟩

end StoreCache
