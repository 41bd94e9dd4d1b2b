import StoreCache.Proofs.Timeline

/-!
# Schedules

A session decides when each event happens. For its world to be on a timeline it has to see to it
that every answer comes when it is due, and its means are timers and turns: **whoever waits for an
answer has a timer for it, or can run because it is due** (`Follows`). The exception is the actor
that runs. It has been taken out of the line, and is `busy` until it waits again or is through.

What has to be known of a turn is therefore little: that the actor at work is the only one whose
questions change, that it sets a timer before it leaves a question open, and that those it wakes are
not asking anything. This module has the single things that are done in a turn: an event happens, an
actor is woken, waits, or is through.
-/

namespace StoreCache

namespace Session

variable {s : Session} {a a' : Actor}

/-! ### Who can run -/

/-- The actor can run: it is in the line, or is awaited. -/
def Ready (s : Session) (a : Actor) : Prop :=
  a ∈ s.line ∨ s.awaitedReady = true ∧ s.awaited.map Actor.call = some a

instance : DecidablePred s.Ready := fun _ ↦ inferInstanceAs (Decidable (_ ∨ _))

/-- Nobody can run twice. -/
structure Single (s : Session) : Prop where
  line : s.line.Nodup
  awaited : ∀ id, s.awaited = some id → Actor.call id ∉ s.line
  owner : s.awaitedReady = true → s.awaited.isSome

/-- Nothing else of a session matters for that. -/
theorem Single.congr {u : Session} (h : s.Single) (hsame :
    (u.line, u.awaited, u.awaitedReady) = (s.line, s.awaited, s.awaitedReady)) : u.Single := by
  simp only [Prod.mk.injEq] at hsame
  obtain ⟨hline, hawaited, hready⟩ := hsame
  refine ⟨?_, ?_, ?_⟩
  · rw [hline]
    exact h.line
  · rw [hline, hawaited]
    exact h.awaited
  · rw [hawaited, hready]
    exact h.owner

/-- Wake actors one after the other. -/
def wakeAll (s : Session) (l : List Actor) : Session := l.foldl wake s

theorem wakeAll_cons (s : Session) (a : Actor) (l : List Actor) :
    s.wakeAll (a :: l) = (s.wake a).wakeAll l :=
  rfl

theorem wakeClearing_eq (s : Session) :
    s.wakeClearing = s.wakeAll (s.world.clearing.map Actor.call) := by
  rw [wakeClearing, wakeAll, World.clearing]
  generalize s.world.tasks = l
  induction l generalizing s with
  | nil => rfl
  | cons x l ih =>
    obtain ⟨id, t⟩ := x
    cases t with
    | clear order => exact ih (s.wake (.call id))
    | refresh | sweep | schema => exact ih s

/-- What waking changes: the line, and whether the awaited call can run. -/
theorem wake_eq (s : Session) (a : Actor) :
    ∃ line awaitedReady, s.wake a = { s with line, awaitedReady } := by
  unfold wake
  split
  · exact ⟨_, _, rfl⟩
  · split
    · exact ⟨s.line, s.awaitedReady, rfl⟩
    · exact ⟨_, _, rfl⟩

theorem wakeAll_eq (s : Session) (l : List Actor) :
    ∃ line awaitedReady, s.wakeAll l = { s with line, awaitedReady } := by
  induction l generalizing s with
  | nil => exact ⟨s.line, s.awaitedReady, rfl⟩
  | cons a l ih =>
    obtain ⟨line, awaitedReady, hwake⟩ := wake_eq s a
    rw [wakeAll_cons, hwake]
    exact ih _

@[simp] theorem world_wake (s : Session) (a : Actor) : (s.wake a).world = s.world := by
  obtain ⟨line, awaitedReady, hwake⟩ := wake_eq s a
  rw [hwake]

@[simp] theorem timers_wake (s : Session) (a : Actor) : (s.wake a).timers = s.timers := by
  obtain ⟨line, awaitedReady, hwake⟩ := wake_eq s a
  rw [hwake]

@[simp] theorem world_wakeAll (s : Session) (l : List Actor) : (s.wakeAll l).world = s.world := by
  obtain ⟨line, awaitedReady, hwake⟩ := wakeAll_eq s l
  rw [hwake]

@[simp] theorem world_wakeClearing (s : Session) : s.wakeClearing.world = s.world := by
  rw [wakeClearing_eq, world_wakeAll]

theorem ready_wake : (s.wake a).Ready a' ↔ s.Ready a' ∨ a' = a := by
  unfold wake
  split
  · rename_i hawaited
    simp only [Ready, hawaited, true_and, Option.some.injEq]
    exact ⟨fun h ↦ h.elim (Or.inl ∘ Or.inl) (Or.inr ∘ Eq.symm),
      fun h ↦ h.elim (fun h ↦ h.imp_right And.right) (Or.inr ∘ Eq.symm)⟩
  · split
    · rename_i hline
      exact ⟨Or.inl, fun h ↦ h.elim (fun h ↦ h) fun ha ↦ Or.inl (ha ▸ hline)⟩
    · simp only [Ready, List.mem_append, List.mem_singleton]
      exact or_right_comm

theorem Single.wake (h : s.Single) (a : Actor) : (s.wake a).Single := by
  unfold Session.wake
  split
  · rename_i hawaited
    refine ⟨h.line, h.awaited, fun _ ↦ ?_⟩
    obtain ⟨id, hid, -⟩ := Option.map_eq_some_iff.1 hawaited
    exact Option.isSome_iff_exists.2 ⟨id, hid⟩
  · rename_i hawaited
    split
    · exact h
    · rename_i hline
      refine ⟨List.nodup_append.2 ⟨h.line, List.pairwise_singleton _ a, ?_⟩, fun id hid hmem ↦ ?_,
        h.owner⟩
      · rintro x hx y hy rfl
        exact hline (List.mem_singleton.1 hy ▸ hx)
      · rcases List.mem_append.1 hmem with hmem | hmem
        · exact h.awaited id hid hmem
        · refine hawaited ?_
          have hid' : s.awaited = some id := hid
          rw [hid', ← List.mem_singleton.1 hmem]
          rfl

theorem ready_wakeAll {l : List Actor} : (s.wakeAll l).Ready a ↔ s.Ready a ∨ a ∈ l := by
  induction l generalizing s with
  | nil => simp [wakeAll]
  | cons a' l ih => rw [wakeAll_cons, ih, ready_wake, List.mem_cons, or_assoc]

theorem Single.wakeAll (h : s.Single) (l : List Actor) : (s.wakeAll l).Single := by
  induction l generalizing s with
  | nil => exact h
  | cons a l ih => exact ih (h.wake a)

/-- The first in the line is taken out of it. -/
theorem ready_popLine (h : s.Single) {line : List Actor} (hline : s.line = a :: line) :
    ({ s with line } : Session).Ready a' ↔ s.Ready a' ∧ a' ≠ a := by
  have hnodup : a ∉ line := (List.nodup_cons.1 (hline ▸ h.line)).1
  refine ⟨fun hr ↦ ?_, fun ⟨hr, hne⟩ ↦ ?_⟩
  · rcases hr with hmem | ⟨hready, hawaited⟩
    · exact ⟨Or.inl (hline ▸ List.mem_cons_of_mem a hmem), fun ha ↦ hnodup (ha ▸ hmem)⟩
    · refine ⟨Or.inr ⟨hready, hawaited⟩, fun ha ↦ ?_⟩
      obtain ⟨id, hid, rfl⟩ := Option.map_eq_some_iff.1 hawaited
      exact h.awaited id hid (hline ▸ ha ▸ List.mem_cons_self)
  · refine hr.imp_left fun hmem ↦ ?_
    rw [hline] at hmem
    exact (List.mem_cons.1 hmem).resolve_left hne

theorem Single.popLine (h : s.Single) {line : List Actor} (hline : s.line = a :: line) :
    ({ s with line } : Session).Single where
  line := (List.nodup_cons.1 (hline ▸ h.line)).2
  awaited id hid hmem := h.awaited id hid (hline ▸ List.mem_cons_of_mem a hmem)
  owner := h.owner

/-- The awaited call is looked at. -/
theorem ready_popAwaited (h : s.Single) {id : CallId} (hid : s.awaited = some id) :
    ({ s with awaitedReady := false } : Session).Ready a ↔ s.Ready a ∧ a ≠ .call id := by
  refine ⟨fun hr ↦ ?_, fun ⟨hr, hne⟩ ↦ ?_⟩
  · rcases hr with hmem | ⟨hready, -⟩
    · exact ⟨Or.inl hmem, fun ha ↦ h.awaited id hid (ha ▸ hmem)⟩
    · cases hready
  · refine Or.inl (hr.resolve_right fun ⟨_, hawaited⟩ ↦ hne ?_)
    rw [hid] at hawaited
    exact (Option.some.inj hawaited).symm

theorem Single.popAwaited (h : s.Single) : ({ s with awaitedReady := false } : Session).Single where
  line := h.line
  awaited := h.awaited
  owner hready := nomatch hready

/-! ### Sessions at timelines -/

/-- What does not change while an instant lasts. -/
structure Terms where
  behaviour : Behaviour
  latency : Nat
  source : Source
  now : Nat
  awaited : Option CallId
  nextId : CallId

/-- The terms of a session. -/
def terms (s : Session) : Terms :=
  ⟨s.behaviour, s.latency, s.source, s.now, s.awaited, s.nextId⟩

/-- What a session asks: where its timeline began, and the editions of the catalog so far. -/
structure Upstream where
  start : Timeline
  edition : Nat
  editions : Nat → Catalog

/-- **A session has come to a timeline** and sees to it that the answers come when they are due.
Whoever waits for an answer has a timer for it or can run because it is due, unless it is `busy`:
the one who runs now. -/
structure Follows (up : Upstream) (x : Terms) (busy : Option Actor) (s : Session)
    (t : Timeline) : Prop where
  reached : Timeline.Reached x.behaviour x.latency up.start t
  world : t.world = s.world
  terms : s.terms = x
  now : t.now = ⟨x.now, up.edition⟩
  editions : t.editions = up.editions
  source : t.catalog.source = x.source
  distinct : s.world.Distinct
  known : ∀ id, s.world.knows id → id < x.nextId
  started : ∀ y ∈ s.started, ¬ s.world.knows y.1 ∧ y.1 < x.nextId
  single : s.Single
  aside : ∀ a, busy = some a → ¬ s.Ready a
  young : ∀ id, s.Ready (.call id) → id < x.nextId
  ready : ∀ a, s.Ready a → s.world.Asks a → x.now = t.asked a + x.latency
  timed : ∀ m ∈ s.timers, x.now < m.due ∧
    (s.world.Asks m.actor → m.due = t.asked m.actor + x.latency) ∧
    ∀ id, m.actor = .call id → s.world.knows id
  waits : ∀ a, s.world.Asks a →
    busy = some a ∨ x.latency ≠ 0 ∧ (s.Ready a ∨ ∃ m ∈ s.timers, m.actor = a)

variable {up : Upstream} {t : Timeline} {x : Terms} {busy : Option Actor}

namespace Follows

theorem time (h : Follows up x busy s t) : t.now.time = x.now := by rw [h.now]

/-! ### Events -/

theorem asked_of_ne (h : Follows up x busy s t) {e : Event}
    (hactor : ∀ a, e.actor? = some a → busy = some a) (hne : busy ≠ some a)
    (hasks : (s.world.step x.behaviour e).Asks a) :
    s.world.Asks a ∧ (t.event x.behaviour e).asked a = t.asked a := by
  have hbefore : s.world.Asks a :=
    (World.asks_of_step hasks).resolve_right fun he ↦ hne (hactor a he)
  refine ⟨hbefore, if_pos ⟨h.world ▸ hbefore, fun hanswered ↦ hne (hactor a ?_)⟩⟩
  exact Event.actor?_of_answered? hanswered

/-- **An event of the one who runs**, unless a question is opened for which there is a timer from
before. -/
theorem step (h : Follows up x busy s t) {e : Event} (hm : t.Allows x.latency (.event e))
    (hactor : ∀ a, e.actor? = some a → busy = some a)
    (hfree : ∀ a, busy = some a → (s.world.step x.behaviour e).Asks a →
      ∀ m ∈ s.timers, m.actor ≠ a)
    (hnew : ∀ id op, e = .call id op → id < x.nextId ∧ ∀ y ∈ s.started, y.1 ≠ id) :
    Follows up x busy (s.step e) (t.event x.behaviour e) := by
  have hbehaviour : s.behaviour = x.behaviour := congrArg Terms.behaviour h.terms
  have hworld : (s.step e).world = s.world.step x.behaviour e := by rw [← hbehaviour]; rfl
  have hother : ∀ a, busy ≠ some a → (s.step e).world.Asks a →
      s.world.Asks a ∧ (t.event x.behaviour e).asked a = t.asked a :=
    fun a hne hasks ↦ h.asked_of_ne hactor hne (hworld ▸ hasks)
  exact
    { reached := .move h.reached hm
      world := by rw [hworld, ← h.world]; rfl
      terms := h.terms
      now := h.now
      editions := h.editions
      source := h.source
      distinct := hworld ▸ h.distinct.step e
      known := fun id hknows ↦ by
        rw [hworld] at hknows
        rcases World.knows_of_step hknows with hbefore | ⟨op, he⟩
        · exact h.known id hbefore
        · exact (hnew id op he).1
      started := fun y hy ↦ by
        rw [hworld]
        refine ⟨fun hknows ↦ ?_, (h.started y hy).2⟩
        rcases World.knows_of_step hknows with hbefore | ⟨op, he⟩
        · exact (h.started y hy).1 hbefore
        · exact (hnew y.1 op he).2 y hy rfl
      single := h.single.congr rfl
      aside := h.aside
      young := h.young
      ready := fun a ha hasks ↦ by
        obtain ⟨hbefore, hasked⟩ := hother a (fun hbusy ↦ h.aside a hbusy ha) hasks
        rw [hasked]
        exact h.ready a ha hbefore
      timed := fun m hm ↦ by
        obtain ⟨hlater, hdue, hknows⟩ := h.timed m hm
        refine ⟨hlater, fun hasks ↦ ?_, fun id hid ↦ hworld ▸ World.step_knows (hknows id hid) e⟩
        obtain ⟨hbefore, hasked⟩ :=
          hother m.actor (fun hbusy ↦ hfree _ hbusy (hworld ▸ hasks) m hm rfl) hasks
        rw [hasked]
        exact hdue hbefore
      waits := fun a hasks ↦ by
        by_cases hbusy : busy = some a
        · exact Or.inl hbusy
        · exact h.waits a (hother a hbusy hasks).1 }

/-- An event that is no answer is always allowed. -/
theorem allows_of_answer?_none {e : Event} (he : e.answer? = none) :
    t.Allows x.latency (.event e) := by
  intro a source h
  rw [he] at h
  cases h

/-- An answer is allowed if it is due. -/
theorem allows_answer (h : Follows up x busy s t) {e : Event}
    (he : e.answer? = some (a, s.source)) (hdue : s.world.Asks a → x.now = t.asked a + x.latency) :
    t.Allows x.latency (.event e) := by
  intro a' source he'
  rw [he] at he'
  cases he'
  refine ⟨?_, fun hasks ↦ h.time.trans (hdue (h.world ▸ hasks))⟩
  rw [h.source]
  exact congrArg Terms.source h.terms

/-- A question opened by an event is asked now. -/
theorem asked_event (h : Follows up x busy s t) {e : Event}
    (he : e.answered? = some a ∨ ¬ s.world.Asks a) : (t.event x.behaviour e).asked a = x.now := by
  refine (if_neg fun hkept ↦ ?_).trans h.time
  rcases he with he | hnot
  · exact hkept.2 he
  · exact hnot (h.world ▸ hkept.1)

/-- **An answer that is due comes** to the one who runs. A question that it opens is asked now. -/
theorem answer (h : Follows up x (some a) s t) {e : Event} (he : e.answer? = some (a, s.source))
    (hdue : s.world.Asks a → x.now = t.asked a + x.latency)
    (hfree : ∀ m ∈ s.timers, m.actor ≠ a) :
    Follows up x (some a) (s.step e) (t.event x.behaviour e) ∧
      (t.event x.behaviour e).asked a = x.now := by
  have hanswered : e.answered? = some a := congrArg (Option.map Prod.fst) he
  refine ⟨h.step (h.allows_answer he hdue) (fun a' ha ↦ ?_) (fun a' ha _ ↦ ?_) fun id op hcall ↦ ?_,
    h.asked_event (Or.inl hanswered)⟩
  · rwa [Event.actor?_of_answered? hanswered] at ha
  · exact Option.some.inj ha ▸ hfree
  · rw [hcall] at he
    cases he

/-! ### Waking and waiting -/

theorem wakeAll (h : Follows up x busy s t) (l : List Actor) (hbusy : ∀ a ∈ l, busy ≠ some a)
    (hdue : ∀ a ∈ l, s.world.Asks a → x.now = t.asked a + x.latency)
    (hyoung : ∀ id, Actor.call id ∈ l → id < x.nextId) :
    Follows up x busy (s.wakeAll l) t := by
  have hsingle := h.single.wakeAll l
  have hready : ∀ a, (s.wakeAll l).Ready a ↔ s.Ready a ∨ a ∈ l := fun _ ↦ ready_wakeAll
  obtain ⟨line, awaitedReady, hwake⟩ := wakeAll_eq s l
  rw [hwake] at hsingle hready ⊢
  exact { h with
    terms := h.terms
    distinct := h.distinct
    known := h.known
    started := h.started
    timed := h.timed
    single := hsingle
    aside := fun a ha hr ↦ ((hready a).1 hr).elim (h.aside a ha) fun hmem ↦ hbusy a hmem ha
    young := fun id hr ↦ ((hready _).1 hr).elim (h.young id) (hyoung id)
    ready := fun a hr hasks ↦ ((hready a).1 hr).elim (h.ready a · hasks) (hdue a · hasks)
    waits := fun a hasks ↦ (h.waits a hasks).imp_right fun hw ↦ hw.imp_right fun hw ↦
      hw.imp_left fun hr ↦ (hready a).2 (Or.inl hr) }

theorem wake (h : Follows up x busy s t) (hbusy : busy ≠ some a)
    (hasks : ¬ s.world.Asks a) (hyoung : ∀ id, a = .call id → id < x.nextId) :
    Follows up x busy (s.wake a) t := by
  refine h.wakeAll [a] ?_ ?_ ?_
  · simpa using hbusy
  · simpa using fun hmem ↦ absurd hmem hasks
  · simpa using fun id hid ↦ hyoung id hid.symm

/-- The one who runs comes to wait for an instant. -/
theorem setTimer (h : Follows up x (some a) s t) {due : Nat} (hlater : x.now < due)
    (hdue : s.world.Asks a → x.latency ≠ 0 ∧ due = t.asked a + x.latency)
    (hknown : ∀ id, a = .call id → s.world.knows id) :
    Follows up x none (s.setTimer due a) t :=
  { h with
    terms := h.terms
    distinct := h.distinct
    known := h.known
    started := h.started
    single := h.single.congr rfl
    aside := fun _ h ↦ nomatch h
    young := h.young
    ready := h.ready
    timed := fun m hm ↦ by
      rcases List.mem_append.1 hm with hm | hm
      · exact h.timed m hm
      · obtain rfl := List.mem_singleton.1 hm
        exact ⟨hlater, fun hasks ↦ (hdue hasks).2, hknown⟩
    waits := fun a' hasks ↦ by
      refine Or.inr ?_
      rcases h.waits a' hasks with hbusy | ⟨htime, hr | ⟨m, hm, hma⟩⟩
      · obtain rfl := Option.some.inj hbusy
        exact ⟨(hdue hasks).1, Or.inr ⟨_, List.mem_append_right _ (List.mem_singleton.2 rfl), rfl⟩⟩
      · exact ⟨htime, Or.inl hr⟩
      · exact ⟨htime, Or.inr ⟨m, List.mem_append_left _ hm, hma⟩⟩ }

/-- The one who runs comes to wait for an answer, if that takes time. -/
theorem wait (h : Follows up x (some a) s t) (hlatency : x.latency ≠ 0)
    (hasked : s.world.Asks a → t.asked a = x.now) (hknown : ∀ id, a = .call id → s.world.knows id) :
    Follows up x none (s.setTimer (s.now + s.latency) a) t := by
  have hnow : s.now = x.now := congrArg Terms.now h.terms
  have hsame : s.latency = x.latency := congrArg Terms.latency h.terms
  rw [hnow, hsame]
  exact h.setTimer (Nat.lt_add_of_pos_right (Nat.pos_of_ne_zero hlatency))
    (fun hasks ↦ ⟨hlatency, by rw [hasked hasks]⟩) hknown

theorem dropTimers (h : Follows up x busy s t) (ha : s.world.Asks a → busy = some a) :
    Follows up x busy (s.dropTimers a) t :=
  { h with
    terms := h.terms
    distinct := h.distinct
    known := h.known
    started := h.started
    single := h.single.congr rfl
    aside := h.aside
    young := h.young
    ready := h.ready
    timed := fun m hm ↦ h.timed m (List.mem_filter.1 hm).1
    waits := fun a' hasks ↦ by
      by_cases haa : a' = a
      · exact Or.inl (haa ▸ ha (haa ▸ hasks))
      · refine (h.waits a' hasks).imp_right fun hw ↦ hw.imp_right fun hw ↦
          hw.imp_right fun ⟨m, hm, hma⟩ ↦ ?_
        exact ⟨m, List.mem_filter.2 ⟨hm, by simpa [hma] using haa⟩, hma⟩ }

/-- The one who runs is through. -/
theorem release (h : Follows up x (some a) s t) (ha : ¬ s.world.Asks a) :
    Follows up x none s t :=
  { h with
    aside := fun _ h ↦ nomatch h
    waits := fun a' hasks ↦ Or.inr ((h.waits a' hasks).resolve_left fun hbusy ↦ by
      obtain rfl := Option.some.inj hbusy
      exact ha hasks) }

theorem wakeBackground {id : CallId} (h : Follows up x (some (.call id)) s t)
    (hasks : ¬ s.world.Asks .background) :
    Follows up x (some (.call id)) (s.wake .background) t :=
  h.wake (fun hid ↦ nomatch hid) hasks fun _ hid ↦ nomatch hid

/-- The periodic task has ended, and those are woken who wait for that. -/
theorem wakeClearing (h : Follows up x (some .background) s t) :
    Follows up x (some .background) s.wakeClearing t := by
  have hclearing : ∀ id ∈ s.world.clearing, ∃ order, s.world.task? id = some (.clear order) :=
    fun id hid ↦ h.distinct.task?_of_clearing hid
  rw [wakeClearing_eq]
  refine h.wakeAll _ ?_ ?_ ?_
  · intro a ha
    obtain ⟨id, -, rfl⟩ := List.mem_map.1 ha
    exact fun hbusy ↦ nomatch hbusy
  · intro a ha hasks
    obtain ⟨id, hid, rfl⟩ := List.mem_map.1 ha
    obtain ⟨order, hclear⟩ := hclearing id hid
    exact absurd hasks (World.not_asks_of_clear hclear)
  · intro id hmem
    obtain ⟨id', hid, hcall⟩ := List.mem_map.1 hmem
    obtain rfl := Actor.call.inj hcall
    obtain ⟨order, hclear⟩ := hclearing id' hid
    exact h.known id' (World.knows_of_task? hclear)

/-- Calls that have been made are not to be made again, and when the next tick is due and what the
clock shows does not matter. -/
theorem adjust (h : Follows up x busy s t) {started : List (CallId × Operation)}
    (hstarted : ∀ y ∈ started, y ∈ s.started) (nextTick : Nat) (clock : Nat × Nat) :
    Follows up x busy { s with started, nextTick, clock } t :=
  { h with
    terms := h.terms
    distinct := h.distinct
    known := h.known
    started := fun y hy ↦ h.started y (hstarted y hy)
    single := h.single.congr rfl
    aside := h.aside
    young := h.young
    ready := h.ready
    timed := h.timed
    waits := h.waits }

/-! ### Turns -/

/-- Whoever can run and waits for an answer is due. -/
theorem due (h : Follows up x none s t) (ha : s.Ready a) (hasks : s.world.Asks a) :
    x.latency ≠ 0 ∧ x.now = t.asked a + x.latency := by
  rcases h.waits a hasks with hbusy | ⟨htime, -⟩
  · cases hbusy
  · exact ⟨htime, h.ready a ha hasks⟩

/-- Who can run is taken out to run. -/
theorem pop (h : Follows up x none s t) {line : List Actor} {awaitedReady : Bool}
    (hsingle : ({ s with line, awaitedReady } : Session).Single)
    (hready : ∀ a', ({ s with line, awaitedReady } : Session).Ready a' ↔ s.Ready a' ∧ a' ≠ a) :
    Follows up x (some a) { s with line, awaitedReady } t :=
  { h with
    terms := h.terms
    distinct := h.distinct
    known := h.known
    started := h.started
    single := hsingle
    aside := fun a' ha hr ↦ ((hready a').1 hr).2 (Option.some.inj ha).symm
    young := fun id hr ↦ h.young id ((hready _).1 hr).1
    ready := fun a' hr ↦ h.ready a' ((hready a').1 hr).1
    timed := h.timed
    waits := fun a' hasks ↦ by
      by_cases hne : a' = a
      · exact Or.inl (congrArg some hne.symm)
      · have hwaits := (h.waits a' hasks).resolve_left fun hbusy ↦ nomatch hbusy
        exact Or.inr (hwaits.imp_right fun hw ↦ hw.imp_left fun hr ↦ (hready a').2 ⟨hr, hne⟩) }

end Follows

end Session

end StoreCache
