import StoreCache.Proofs.Turns

/-!
# The passing of time

Between two things that are done with a session nobody can run (`Settled`), and whoever waits for an
answer has a timer for it that is still to go off. That is why the session may go to its next timer
without passing by an answer, and why **the catalog may be edited then**: no answer is due at this
instant that could have been given before the edit or after it.

So going to an instant, from timer to timer or from call to call leads from one settled session to
another. What is done with a session is followed here from end to end: a call is awaited, made or
started on its own, time passes, the clock is set, and the catalog is edited.
-/

namespace StoreCache

namespace Session

variable {s : Session} {a : Actor} {up : Upstream} {t : Timeline} {x : Terms}

/-- Nobody can run, and the session is at a timeline. -/
def Settled (up : Upstream) (x : Terms) (s : Session) : Prop :=
  s.Rest ∧ ∃ t, Follows up x none s t

theorem Rest.not_ready (h : s.Rest) (a : Actor) : ¬ s.Ready a := by
  rintro (hmem | ⟨hready, -⟩)
  · rw [h.line] at hmem
    cases hmem
  · rw [h.awaited] at hready
    cases hready

/-- Between two instants everybody who waits for an answer has a timer for it. -/
theorem Follows.timer (h : Follows up x none s t) (hrest : s.Rest) (ha : s.world.Asks a) :
    x.latency ≠ 0 ∧
      ∃ m ∈ s.timers, m.actor = a ∧ x.now < m.due ∧ m.due = t.asked a + x.latency := by
  rcases h.waits a ha with hbusy | ⟨htime, hr | ⟨m, hm, rfl⟩⟩
  · cases hbusy
  · exact absurd hr (hrest.not_ready a)
  · exact ⟨htime, m, hm, rfl, (h.timed m hm).1, (h.timed m hm).2.1 ha⟩

theorem Follows.settled (h : Follows up x none s t) : s.settle.Settled up x :=
  (keptByTurns_follows.settle ⟨t, h⟩).symm

/-! ### Moving to an instant -/

theorem step_wakeAll (s : Session) (e : Event) (l : List Actor) :
    (s.step e).wakeAll l = (s.wakeAll l).step e := by
  induction l generalizing s with
  | nil => rfl
  | cons a l ih =>
    have hwake : (s.step e).wake a = (s.wake a).step e := by
      unfold wake step
      split
      · rfl
      · split <;> rfl
    rw [wakeAll_cons, wakeAll_cons, hwake, ih]

/-- An event that is nobody's, such as that the clock shows another time. -/
theorem Follows.clock (h : Follows up x none s t) (time : Nat) :
    Follows up x none (s.step (.clock time)) (t.event x.behaviour (.clock time)) :=
  h.step (allows_of_answer?_none rfl) (fun _ ha ↦ nomatch ha) (fun _ ha ↦ nomatch ha)
    fun _ _ ↦ Event.noConfusion

/-- The actors whose timers are due at an instant. -/
def dueAt (s : Session) (d : Nat) : List Actor :=
  (s.timers.filter (·.due ≤ d)).map Timer.actor

theorem exists_timer_of_mem_dueAt {d : Nat} (hdue : ∀ m ∈ s.timers, d ≤ m.due)
    (ha : a ∈ s.dueAt d) : ∃ m ∈ s.timers, m.actor = a ∧ m.due = d := by
  obtain ⟨m, hm, rfl⟩ := List.mem_map.1 ha
  obtain ⟨hm, hle⟩ := List.mem_filter.1 hm
  exact ⟨m, hm, rfl, Nat.le_antisymm (of_decide_eq_true hle) (hdue m hm)⟩

/-- Time that passes up to the next timer passes by no answer. -/
theorem Follows.allows_pass (h : Follows up x none s t) (hrest : s.Rest) {d : Nat} (hd : x.now ≤ d)
    (hdue : ∀ m ∈ s.timers, d ≤ m.due) : t.Allows x.latency (.pass d) := by
  refine ⟨h.time ▸ hd, fun a ha ↦ ?_⟩
  obtain ⟨-, m, hm, -, -, hwhen⟩ := h.timer hrest (h.world ▸ ha)
  exact hwhen ▸ hdue m hm

/-- **Time passes to an instant**, if no timer is due before, and whoever is due then is woken. -/
theorem Follows.pass (h : Follows up x none s t) (hrest : s.Rest) {d : Nat} (hd : x.now ≤ d)
    (hdue : ∀ m ∈ s.timers, d ≤ m.due) :
    Follows up { x with now := d } none
      (({ s with now := d, timers := s.timers.filter (d < ·.due) } : Session).wakeAll (s.dueAt d))
      (t.move x.behaviour (.pass d)) := by
  generalize hv : ({ s with now := d, timers := s.timers.filter (d < ·.due) } : Session) = v
  have hready : ∀ a, (v.wakeAll (s.dueAt d)).Ready a ↔ a ∈ s.dueAt d := by
    intro a
    rw [ready_wakeAll, ← hv]
    exact or_iff_right (hrest.not_ready a)
  have hsingle : v.Single := by
    rw [← hv]
    exact h.single.congr rfl
  have hwoken := hsingle.wakeAll (s.dueAt d)
  have hterms : s.terms = x := h.terms
  obtain ⟨line, awaitedReady, hwake⟩ := wakeAll_eq v (s.dueAt d)
  rw [hwake] at hready hwoken ⊢
  subst hv
  exact
    { reached := .move h.reached (h.allows_pass hrest hd hdue)
      world := h.world
      terms := hterms ▸ rfl
      now := by rw [Timeline.move, h.now]
      editions := h.editions
      source := h.source
      distinct := h.distinct
      known := h.known
      started := h.started
      single := hwoken
      aside := fun _ ha ↦ nomatch ha
      young := fun id hr ↦ by
        obtain ⟨m, hm, hma, -⟩ := exists_timer_of_mem_dueAt hdue ((hready _).1 hr)
        exact h.known id ((h.timed m hm).2.2 id hma)
      ready := fun a hr ha ↦ by
        obtain ⟨m, hm, rfl, rfl⟩ := exists_timer_of_mem_dueAt hdue ((hready _).1 hr)
        exact (h.timed m hm).2.1 ha
      timed := fun m hm ↦ by
        obtain ⟨hm, hlt⟩ := List.mem_filter.1 hm
        exact ⟨of_decide_eq_true hlt, (h.timed m hm).2⟩
      waits := fun a ha ↦ by
        obtain ⟨htime, m, hm, rfl, -⟩ := h.timer hrest ha
        refine Or.inr ⟨htime, ?_⟩
        by_cases hlt : d < m.due
        · exact Or.inr ⟨m, List.mem_filter.2 ⟨hm, decide_eq_true hlt⟩, rfl⟩
        · exact Or.inl ((hready _).2 (List.mem_map_of_mem (List.mem_filter.2
            ⟨hm, decide_eq_true (Nat.le_of_not_lt hlt)⟩))) }

/-- The session at an instant, with those woken who are due. -/
def woken (s : Session) (d : Nat) : Session :=
  ({ s.moveTo d with timers := s.timers.filter (d < ·.due) } : Session).wakeAll (s.dueAt d)

/-- The awaited call has its turn, if it can run. -/
def first (s : Session) : Session :=
  if s.awaitedReady then
    match s.awaited with
    | some id => { s with awaitedReady := false }.runCall id
    | none => s
  else s

theorem arrive_eq (s : Session) (d : Nat) : s.arrive d = (s.woken d).first.settle := by
  rw [woken, wakeAll, dueAt, List.foldl_map]
  rfl

theorem Follows.woken (h : Follows up x none s t) (hrest : s.Rest) {d : Nat} (hd : x.now ≤ d)
    (hdue : ∀ m ∈ s.timers, d ≤ m.due) :
    ∃ u, Follows up { x with now := d } none (s.woken d) u := by
  have hclock := (h.pass hrest hd hdue).clock (s.clockAt d)
  rw [← step_wakeAll] at hclock
  exact ⟨_, hclock⟩

theorem Follows.first (h : Follows up x none s t) : ∃ u, Follows up x none s.first u := by
  unfold Session.first
  split
  · rename_i hready
    split
    · rename_i id hid
      exact h.turnAwaited hid hready
    · exact ⟨t, h⟩
  · exact ⟨t, h⟩

/-- **The session comes to the next instant** and settles it. -/
theorem Settled.arrive (h : s.Settled up x) {d : Nat} (hd : x.now ≤ d)
    (hdue : ∀ m ∈ s.timers, d ≤ m.due) : (s.arrive d).Settled up { x with now := d } := by
  obtain ⟨hrest, t, ht⟩ := h
  obtain ⟨u, hu⟩ := ht.woken hrest hd hdue
  obtain ⟨v, hv⟩ := hu.first
  rw [arrive_eq]
  exact hv.settled

/-! ### Going from timer to timer -/

theorem due_le_of_nextDue? {now limit d : Nat} (h : s.nextDue? now limit = some d) {m : Timer}
    (hm : m ∈ s.timers) (hlater : now < m.due) : d ≤ m.due := by
  by_cases hlimit : m.due ≤ limit
  · refine (List.min?_eq_some_iff.1 h).2 m.due (List.mem_filter.2 ⟨List.mem_map_of_mem hm, ?_⟩)
    exact decide_eq_true ⟨hlater, hlimit⟩
  · exact Nat.le_trans (nextDue?_bounds h).2 (Nat.le_of_not_le hlimit)

theorem lt_due_of_nextDue? {now limit : Nat} (h : s.nextDue? now limit = none) {m : Timer}
    (hm : m ∈ s.timers) (hlater : now < m.due) : limit < m.due := by
  refine Nat.lt_of_not_le fun hlimit ↦ ?_
  have hmem : m.due ∈ (s.timers.map Timer.due).filter fun d ↦ decide (now < d ∧ d ≤ limit) :=
    List.mem_filter.2 ⟨List.mem_map_of_mem hm, decide_eq_true ⟨hlater, hlimit⟩⟩
  rw [List.min?_eq_none_iff.1 h] at hmem
  cases hmem

theorem passUntil_of_none {wished : Session → Bool} {limit now : Nat} (h : ¬ wished s = true)
    (hnone : s.nextDue? now limit = none) : passUntil wished limit now s = s := by
  rw [passUntil, if_neg h]
  split
  · rfl
  · rename_i d hd
    cases hnone.symm.trans hd

theorem passUntil_of_some {wished : Session → Bool} {limit now d : Nat} (h : ¬ wished s = true)
    (hd : s.nextDue? now limit = some d) :
    passUntil wished limit now s = passUntil wished limit d (s.arrive d) := by
  rw [passUntil, if_neg h]
  split
  · rename_i hnone
    cases hnone.symm.trans hd
  · rename_i d' hd'
    obtain rfl := Option.some.inj (hd.symm.trans hd')
    rfl

/-- **The session goes from timer to timer**, until it is as wished or no timer is left by then. -/
theorem passUntil_induction {P : Nat → Session → Prop} {limit : Nat}
    (harrive : ∀ {now d s}, P now s → s.nextDue? now limit = some d → P d (s.arrive d))
    (wished : Session → Bool) (now : Nat) (s : Session) (h : P now s) :
    ∃ now', P now' (passUntil wished limit now s) ∧ (now ≤ limit → now' ≤ limit) ∧
      (wished (passUntil wished limit now s) = true ∨
        (passUntil wished limit now s).nextDue? now' limit = none) := by
  induction now, s using passUntil.induct wished limit with
  | case1 now s hwished =>
    rw [passUntil, if_pos hwished]
    exact ⟨now, h, id, Or.inl hwished⟩
  | case2 now s hwished hnone =>
    rw [passUntil_of_none hwished hnone]
    exact ⟨now, h, id, Or.inr hnone⟩
  | case3 now s hwished d hd hbounds ih =>
    rw [passUntil_of_some hwished hd]
    obtain ⟨now', hpassed, hle, hend⟩ := ih (harrive h hd)
    exact ⟨now', hpassed, fun _ ↦ hle hbounds.2, hend⟩

theorem Settled.passUntil (wished : Session → Bool) (limit now : Nat) (s : Session)
    (h : s.Settled up x) (hnow : x.now = now) :
    ∃ now', (passUntil wished limit now s).Settled up { x with now := now' } ∧
      (now ≤ limit → now' ≤ limit) ∧
      (wished (Session.passUntil wished limit now s) = true ∨
        ∀ m ∈ (Session.passUntil wished limit now s).timers, limit < m.due) := by
  have hlater : ∀ {now : Nat} {s : Session}, s.Settled up { x with now } →
      ∀ m ∈ s.timers, now < m.due :=
    fun ⟨_, _, ht⟩ m hm ↦ (ht.timed m hm).1
  obtain ⟨now', hpassed, hle, hend⟩ :=
    passUntil_induction (P := fun now s ↦ s.Settled up { x with now })
      (fun hs hd ↦ hs.arrive (Nat.le_of_lt (nextDue?_bounds hd).1) fun m hm ↦
        due_le_of_nextDue? hd hm (hlater hs m hm)) wished now s (hnow ▸ h)
  exact ⟨now', hpassed, hle, hend.imp_right fun hnone m hm ↦
    lt_due_of_nextDue? hnone hm (hlater hpassed m hm)⟩

theorem woken_of_late {d : Nat} (h : ∀ m ∈ s.timers, d < m.due) : s.woken d = s.moveTo d := by
  have hdue : s.timers.filter (·.due ≤ d) = [] := List.filter_eq_nil_iff.2 fun m hm hle ↦
    Nat.not_le_of_lt (h m hm) (of_decide_eq_true hle)
  have hlate : s.timers.filter (d < ·.due) = s.timers :=
    List.filter_eq_self.2 fun m hm ↦ decide_eq_true (h m hm)
  rw [woken, dueAt, hdue, hlate]
  rfl

/-! ### What is done with a session -/

/-- The session goes on at rest: another call is awaited, or none. -/
theorem Follows.expect (h : Follows up x none s t) (hrest : s.Rest) (awaited : Option CallId)
    {nextId : CallId} (hnext : x.nextId ≤ nextId) (busy : Option Actor) :
    Follows up { x with awaited, nextId } busy
      { s with awaited, nextId, awaitedReady := false } t := by
  have hrest' : ({ s with awaited, nextId, awaitedReady := false } : Session).Rest :=
    ⟨hrest.line, rfl⟩
  have hsingle : ({ s with awaited, nextId, awaitedReady := false } : Session).Single := by
    refine ⟨h.single.line, fun id _ hmem ↦ ?_, fun hready ↦ nomatch hready⟩
    exact hrest'.not_ready _ (Or.inl hmem)
  obtain rfl := h.terms
  exact { h with
    terms := rfl
    distinct := h.distinct
    known := fun id hid ↦ Nat.lt_of_lt_of_le (h.known id hid) hnext
    started := fun y hy ↦ ⟨(h.started y hy).1, Nat.lt_of_lt_of_le (h.started y hy).2 hnext⟩
    single := hsingle
    aside := fun a _ ↦ hrest'.not_ready a
    young := fun id hr ↦ absurd hr (hrest'.not_ready _)
    ready := fun a hr ↦ absurd hr (hrest'.not_ready a)
    timed := h.timed
    waits := fun a ha ↦ by
      obtain ⟨htime, m, hm, hma, -⟩ := h.timer hrest ha
      exact Or.inr ⟨htime, Or.inr ⟨m, hm, hma⟩⟩ }

/-- **Time passes.** -/
theorem Settled.advance (h : s.Settled up x) (time : Nat) :
    (s.advance time).Settled up { x with now := x.now + time } := by
  have hnow : s.now = x.now := h.2.elim fun _ ht ↦ congrArg Terms.now ht.terms
  obtain ⟨now', ⟨hrest, t, ht⟩, hle, hend⟩ :=
    Settled.passUntil (fun _ ↦ false) (s.now + time) s.now s h hnow.symm
  have hlate := hend.resolve_left Bool.false_ne_true
  obtain ⟨u, hu⟩ := ht.woken hrest (d := s.now + time) (hle (Nat.le_add_right _ _))
    fun m hm ↦ Nat.le_of_lt (hlate m hm)
  rw [woken_of_late hlate] at hu
  rw [← hnow]
  exact hu.settled

/-- **A call is awaited.** -/
theorem Settled.await (h : s.Settled up x) (id : CallId) :
    ∃ now', (s.await id).Settled up { x with now := now' } := by
  obtain ⟨hrest, t, ht⟩ := h
  have hsettled := ht.settled
  have hnow : s.now = x.now := congrArg Terms.now ht.terms
  obtain ⟨now', ⟨-, u, hu⟩, -⟩ := Settled.passUntil (fun s ↦ (s.outcome? id).isSome) s.horizon s.now
    s.settle hsettled hnow.symm
  exact ⟨now', hu.settled⟩

/-- **A call is made and awaited.** -/
theorem Settled.perform (h : s.Settled up x) (op : Operation) :
    ∃ now', (s.perform op).2.Settled up
      { x with now := now', awaited := none, nextId := x.nextId + 1 } := by
  obtain ⟨hrest, t, ht⟩ := h
  obtain rfl := ht.terms
  have hexpect := ht.expect hrest (some s.nextId) (Nat.le_succ s.nextId) (some (.call s.nextId))
  rw [← hrest.awaited] at hexpect
  obtain ⟨u, hu⟩ := hexpect.make op (fun hknows ↦ Nat.lt_irrefl s.nextId (ht.known _ hknows))
    (Nat.lt_succ_self s.nextId) fun y hy ↦ Nat.ne_of_lt (ht.started y hy).2
  have hmade := hu.settled
  simp only [Session.perform]
  generalize (({ s with nextId := s.nextId + 1, awaited := some s.nextId } : Session).make
    s.nextId op).settle = v at hmade ⊢
  have hterms := hmade.2.elim fun _ hv ↦ hv.terms
  obtain ⟨now', ⟨hrest', w, hw⟩, -⟩ := Settled.passUntil (fun v ↦ (v.outcome? s.nextId).isSome)
    v.horizon v.now v hmade (congrArg Terms.now hterms).symm
  refine ⟨now', ?_⟩
  generalize Session.passUntil (fun v ↦ (v.outcome? s.nextId).isSome) v.horizon v.now v = v' at *
  have hnext : v'.nextId = s.nextId + 1 := congrArg Terms.nextId hw.terms
  have hlast := hw.expect hrest' none (Nat.le_of_eq hnext.symm) none
  rw [show s.terms.nextId + 1 = v'.nextId from hnext.symm]
  exact hlast.settled

/-- **A call is started on its own.** -/
theorem Settled.spawn (h : s.Settled up x) (op : Operation) :
    (s.spawn op).2.Settled up { x with nextId := x.nextId + 1 } := by
  obtain ⟨hrest, t, ht⟩ := h
  obtain rfl := ht.terms
  have hnew : ¬ s.world.knows s.nextId := fun hknows ↦ Nat.lt_irrefl s.nextId (ht.known _ hknows)
  have hstarted : Follows up { s.terms with nextId := s.nextId + 1 } none
      { s with nextId := s.nextId + 1, started := s.started ++ [(s.nextId, op)] } t :=
    { ht with
      terms := rfl
      distinct := ht.distinct
      known := fun id hid ↦ Nat.lt_succ_of_lt (ht.known id hid)
      started := fun y hy ↦ by
        rcases List.mem_append.1 hy with hy | hy
        · exact ⟨(ht.started y hy).1, Nat.lt_succ_of_lt (ht.started y hy).2⟩
        · obtain rfl := List.mem_singleton.1 hy
          exact ⟨hnew, Nat.lt_succ_self _⟩
      single := ht.single.congr rfl
      aside := ht.aside
      young := fun id hr ↦ Nat.lt_succ_of_lt (ht.young id hr)
      ready := ht.ready
      timed := ht.timed
      waits := ht.waits }
  have hwoken := hstarted.wake (a := .call s.nextId) (fun hbusy ↦ nomatch hbusy) (fun hasks ↦ ?_)
    fun id hid ↦ Actor.call.inj hid ▸ Nat.lt_succ_self _
  · exact hwoken.settled
  · obtain ⟨task, htask, -⟩ := World.asks_call.1 hasks
    exact hnew (World.knows_of_task? htask)

/-- The clock of the cache is set. -/
theorem Settled.setClock (h : s.Settled up x) (time : Nat) :
    (s.setClock time).Settled up x := by
  obtain ⟨hrest, t, ht⟩ := h
  have hset := ht.adjust (fun _ hy ↦ hy) s.nextTick (time, s.now)
  exact ⟨⟨hrest.line, hrest.awaited⟩, _, hset.clock _⟩

/-- A further edition of the catalog. -/
def Upstream.edit (up : Upstream) (c : Catalog) : Upstream :=
  ⟨up.start, up.edition + 1, fun k ↦ if k ≤ up.edition then up.editions k else c⟩

/-- **The catalog is edited**, while no answer is due. -/
theorem Settled.edit (h : s.Settled up x) (c : Catalog) :
    ({ s with source := c.source } : Session).Settled (up.edit c)
      { x with source := c.source } := by
  obtain ⟨hrest, t, ht⟩ := h
  have hallowed : t.Allows x.latency (.edit c) := by
    intro a ha
    obtain ⟨-, m, -, -, hlater, hwhen⟩ := ht.timer hrest (ht.world ▸ ha)
    rw [← hwhen, ht.time]
    exact hlater
  obtain rfl := ht.terms
  refine ⟨⟨hrest.line, hrest.awaited⟩, t.move s.behaviour (.edit c), ?_⟩
  have hedition : t.now.edition = up.edition := congrArg Instant.edition ht.now
  exact { ht with
    reached := .move ht.reached hallowed
    terms := rfl
    now := by rw [Timeline.move, ht.now]; rfl
    editions := by rw [Timeline.move, ht.editions, hedition]; rfl
    source := congrArg Catalog.source (if_neg (Nat.not_succ_le_self _))
    distinct := ht.distinct
    known := ht.known
    started := ht.started
    single := ht.single.congr rfl
    aside := ht.aside
    young := ht.young
    ready := ht.ready
    timed := ht.timed
    waits := ht.waits }

end Session

end StoreCache
