import StoreCache.Proofs.Alone

/-!
# Sweeps left alone

A sweep that is left alone goes through its stores one after the other. **At every instant it is
through with some of them, has one in hand and has not touched the others** (`Sweeping`), and it is
through with a store when the refresh of the store has ended and a store found gone has been removed
(`Through`). What one store has come to depends on nothing that was answered about another, and the
tally counts each store by the end of its refresh.

The invariant goes from answer to answer: either the store in hand goes on its course, or it joins
the stores behind and the sweep turns to the next (`Sweeping.turned`). Since no store is visited
twice, what is behind stays as it is. Three answers for each store are enough (`Sweeping.returned`).
-/

namespace StoreCache

variable {b : Behaviour} {v w : World} {id : CallId} {n : String} {events : List Event} {e : Event}

/-! ### The stores of a sweep -/

/-- A sweep visits the subscribed stores. -/
theorem Cache.mem_visiting_iff {c : Cache} {order : List String} :
    n ∈ World.visiting order c ↔ c.stores.get? n ≠ none := by
  refine ⟨fun h ↦ Dict.get?_ne_none_of_mem_keys ?_, mem_visiting order⟩
  unfold World.visiting at h
  split at h
  · rename_i hperm
    exact (List.isPerm_iff.1 hperm).mem_iff.1 h
  · exact h

theorem Cache.visiting_perm (order : List String) (c : Cache) :
    (World.visiting order c).Perm c.stores.keys := by
  unfold World.visiting
  split
  · rename_i hperm
    exact List.isPerm_iff.1 hperm
  · rfl

/-- A sweep visits no store twice. -/
theorem Cache.nodup_visiting (order : List String) (c : Cache) :
    (World.visiting order c).Nodup :=
  (visiting_perm order c).nodup_iff.2 c.stores.nodup_keys

/-! ### Tallies -/

/-- The tally of the stores `names` if a refresh of each gets these answers. -/
def Tally.under (answers : String → Answers) (names : List String) : Tally :=
  names.foldl (fun t n ↦ t.count (((answers n).verdict n).map some)) .zero

theorem Tally.under_concat (answers : String → Answers) (names : List String) (n : String) :
    Tally.under answers (names ++ [n]) =
      (Tally.under answers names).count (((answers n).verdict n).map some) :=
  List.foldl_concat ..

theorem Tally.under_congr {answers answers' : String → Answers} {names : List String}
    (h : ∀ n ∈ names, (answers n).verdict n = (answers' n).verdict n) :
    Tally.under answers names = Tally.under answers' names :=
  List.foldl_ext _ _ _ fun t n hn ↦ by rw [h n hn]

/-- Counting two stores is the same in either order. -/
theorem Tally.count_comm (t : Tally) (r r' : Except CacheError (Option Store)) :
    (t.count r).count r' = (t.count r').count r := by
  rcases r with err | - | s <;> rcases r' with err' | - | s' <;> grind [Tally.count]

theorem Tally.under_perm {answers : String → Answers} {names names' : List String}
    (h : names.Perm names') : Tally.under answers names = Tally.under answers names' :=
  List.Perm.foldl_eq' h (fun _ _ _ _ t ↦ Tally.count_comm t _ _) Tally.zero

/-! ### The invariant -/

/-- A sweep left alone since the world `v` is through with the store `n`. -/
structure Through (b : Behaviour) (v : World) (id : CallId) (events : List Event) (n : String)
    (a : Answers) (time : Option Nat) : Prop where
  given : a.Given (Answered b v id n events) n
  ended : ∀ result time', Ended b v id n events result time' ↔
    result = (a.verdict n).map some ∧ time' = time
  standing : (v.run b events).cache.standing n = (v.cache.standing n).swept n a time

theorem Through.still {a : Answers} {time : Option Nat} (h : Through b v id events n a time)
    (hsame : (v.run b (events ++ [e])).cache.standing n = (v.run b events).cache.standing n)
    (hends : ∀ result time', Ended b v id n (events ++ [e]) result time' →
      Ended b v id n events result time') :
    Through b v id (events ++ [e]) n a time where
  given := h.given.mono fun _ _ ↦ .concat
  ended result time' :=
    ⟨fun he ↦ (h.ended result time').1 (hends result time' he),
      fun he ↦ ((h.ended result time').2 he).concat⟩
  standing := hsame.trans h.standing

/-- Where a sweep over the stores `names` has come to that has been left alone since the world `v`:
it is through with some stores, has one in hand and has not touched the others, or it has returned.
-/
inductive Sweeping (b : Behaviour) (v : World) (id : CallId) (names : List String)
    (events : List Event) : Prop
  | under {s : Sweep} {behind : List String} {answers : String → Answers}
    {time : String → Option Nat} (ht : (v.run b events).task? id = some (.sweep s))
    (hnames : names = behind ++ s.current :: s.rest) (htally : s.tally = .under answers behind)
    (hbehind : ∀ n ∈ behind, Through b v id events n (answers n) (time n))
    (hcourse : Course (Answered b v id s.current events) s.current (v.cache.standing s.current)
      s.stage ((v.run b events).cache.standing s.current))
    (hothers : ∀ n, n ∉ behind → n ≠ s.current →
      (v.run b events).cache.standing n = v.cache.standing n)
    (hended : ∀ n, n ∉ behind → ∀ result time, ¬ Ended b v id n events result time)
    (hcount : answersIn events ≤ 3 * behind.length + s.stage.rank)
  | over {answers : String → Answers} {time : String → Option Nat}
    (ht : (v.run b events).task? id = none)
    (houtcome : (v.run b events).outcomes.lookup id = some (.ok (.tally (.under answers names))))
    (hbehind : ∀ n ∈ names, Through b v id events n (answers n) (time n))
    (hothers : ∀ n, n ∉ names → (v.run b events).cache.standing n = v.cache.standing n)
    (hended : ∀ n, n ∉ names → ∀ result time, ¬ Ended b v id n events result time)

theorem Sweeping.still {names : List String} (h : Sweeping b v id names events)
    (htask : (v.run b (events ++ [e])).task? id = (v.run b events).task? id)
    (houtcome : (v.run b (events ++ [e])).outcomes.lookup id =
      (v.run b events).outcomes.lookup id)
    (hstanding : ∀ n, (v.run b (events ++ [e])).cache.standing n =
      (v.run b events).cache.standing n)
    (hstill : (v.run b events).task? id = none ∨ ∃ time, e = .clock time) :
    Sweeping b v id names (events ++ [e]) := by
  have hends : ∀ n result time, Ended b v id n (events ++ [e]) result time →
      Ended b v id n events result time := fun n result time h ↦ h.of_still hstill
  rcases h with ⟨ht, hnames, htally, hbehind, hcourse, hothers, hended, hcount⟩ |
    ⟨ht, ho, hbehind, hothers, hended⟩
  · refine .under (htask.trans ht) hnames htally
      (fun n hn ↦ (hbehind n hn).still (hstanding n) (hends n)) ?_
      (fun n hn hne ↦ (hstanding n).trans (hothers n hn hne))
      (fun n hn result time h ↦ hended n hn result time (hends n result time h)) ?_
    · rw [hstanding]
      exact hcourse.mono fun _ _ ↦ .concat
    · rcases hstill with hnone | ⟨time, rfl⟩
      · rw [ht] at hnone
        cases hnone
      · rwa [answersIn_concat_clock]
  · exact .over (htask.trans ht) (houtcome.trans ho)
      (fun n hn ↦ (hbehind n hn).still (hstanding n) (hends n))
      (fun n hn ↦ (hstanding n).trans (hothers n hn))
      fun n hn result time h ↦ hended n hn result time (hends n result time h)

/-- What a sweep does with a store whose refresh has ended. -/
theorem Sweep.settled {c d : Cache} {a : Answers} {k : Standing} (h : c.Calm b)
    (hstanding : d.standing n = k.refreshed n a c.reading) (hbeside : c.Beside n d)
    (hrefused : ∀ e, a.verdict n = .error e → d = c) :
    (Sweep.settle b n ((a.verdict n).map some) d).standing n = k.swept n a c.reading ∧
      c.Beside n (Sweep.settle b n ((a.verdict n).map some) d) := by
  rcases hv : a.verdict n with err | s
  · obtain rfl := hrefused err hv
    show (if err.isNoSuchStore then d.remove b n else d).standing n = _ ∧
      d.Beside n (if err.isNoSuchStore then d.remove b n else d)
    have hgone : a.sayGone n = err.isNoSuchStore := by simp only [Answers.sayGone, hv]
    rw [Standing.swept, hgone]
    split
    · rw [Cache.standing_remove h, if_pos rfl, hstanding]
      exact ⟨rfl, Cache.beside_remove h n⟩
    · exact ⟨hstanding, hbeside⟩
  · have hgone : a.sayGone n = false := by simp only [Answers.sayGone, hv]
    rw [Standing.swept, hgone, if_neg Bool.false_ne_true]
    exact ⟨hstanding, hbeside⟩

/-- The refresh of the store in hand has ended, and the sweep turns to the next one or returns. -/
theorem Sweeping.turned {names behind : List String} {s : Sweep} {answers : String → Answers}
    {time : String → Option Nat} {a : Answers} {source : Source} {c : Cache} {now : Option Nat}
    (hnodup : names.Nodup) (hnames : names = behind ++ s.current :: s.rest)
    (htally : s.tally = .under answers behind)
    (hbehind : ∀ n ∈ behind, Through b v id events n (answers n) (time n))
    (hothers : ∀ n, n ∉ behind → n ≠ s.current →
      (v.run b events).cache.standing n = v.cache.standing n)
    (hunended : ∀ n, n ∉ behind → ∀ result time, ¬ Ended b v id n events result time)
    (hcount : answersIn events ≤ 3 * behind.length + s.stage.rank)
    (hgiven : a.Given (Answered b v id s.current (events ++ [.answer id source])) s.current)
    (hends : ∀ n, n ≠ s.current → ∀ result time,
      Ended b v id n (events ++ [.answer id source]) result time →
        Ended b v id n events result time)
    (hended : ∀ result time, Ended b v id s.current (events ++ [.answer id source]) result time ↔
      result = (a.verdict s.current).map some ∧ time = now)
    (hswept : c.standing s.current = (v.cache.standing s.current).swept s.current a now)
    (hbeside : (v.run b events).cache.Beside s.current c)
    (hrun : v.run b (events ++ [.answer id source]) = (v.run b events).continueSweep id
      (Sweep.advance (s.tally.count ((a.verdict s.current).map some)) s.rest c)) :
    Sweeping b v id names (events ++ [.answer id source]) ∧
      (v.run b events).cache.Beside s.current (v.run b (events ++ [.answer id source])).cache := by
  have hcache : c.Beside s.current (v.run b (events ++ [.answer id source])).cache ∧
      (v.run b (events ++ [.answer id source])).cache.standing s.current =
        c.standing s.current := by
    rw [hrun, World.cache_continueSweep]
    rcases s.rest with - | ⟨m, rest⟩
    · exact ⟨.of_eq rfl fun _ ↦ rfl, rfl⟩
    · exact ⟨Cache.beside_ask _, Cache.standing_note rfl _⟩
  have hbeside' := hbeside.trans hcache.1
  refine ⟨?_, hbeside'⟩
  -- The store in hand joins those behind, with the answers it has got.
  let answers' := Function.update answers s.current a
  let time' := Function.update time s.current now
  have hfresh : s.current ∉ behind := by
    rw [hnames] at hnodup
    exact fun hmem ↦ (List.nodup_append.1 hnodup).2.2 _ hmem _ List.mem_cons_self rfl
  have hkept : ∀ n ∈ behind, n ≠ s.current := fun n hn h ↦ hfresh (h ▸ hn)
  have hanswers : ∀ n ∈ behind, answers' n = answers n := fun n hn ↦
    Function.update_of_ne (hkept n hn) a answers
  have htime : ∀ n ∈ behind, time' n = time n := fun n hn ↦
    Function.update_of_ne (hkept n hn) now time
  have hself : answers' s.current = a := Function.update_self ..
  have hnow : time' s.current = now := Function.update_self ..
  have hthrough : ∀ n ∈ behind ++ [s.current],
      Through b v id (events ++ [.answer id source]) n (answers' n) (time' n) := by
    intro n hn
    rcases List.mem_append.1 hn with hn | hn
    · rw [hanswers n hn, htime n hn]
      exact (hbehind n hn).still (hbeside'.2 n (hkept n hn)) (hends n (hkept n hn))
    · obtain rfl := List.mem_singleton.1 hn
      rw [hself, hnow]
      exact ⟨hgiven, hended, hcache.2.trans hswept⟩
  have htally' : s.tally.count ((a.verdict s.current).map some) =
      .under answers' (behind ++ [s.current]) := by
    rw [Tally.under_concat, hself, htally,
      Tally.under_congr fun n hn ↦ congrArg (Answers.verdict · n) (hanswers n hn).symm]
  have hothers' : ∀ n, n ∉ behind ++ [s.current] →
      (v.run b (events ++ [.answer id source])).cache.standing n = v.cache.standing n := by
    intro n hn
    obtain ⟨hn, hne⟩ : n ∉ behind ∧ n ≠ s.current := by simpa using hn
    exact (hbeside'.2 n hne).trans (hothers n hn hne)
  have hunended' : ∀ n, n ∉ behind ++ [s.current] → ∀ result time,
      ¬ Ended b v id n (events ++ [.answer id source]) result time := by
    intro n hn result time h
    obtain ⟨hn, hne⟩ : n ∉ behind ∧ n ≠ s.current := by simpa using hn
    exact hunended n hn result time (hends n hne result time h)
  rw [htally'] at hrun
  rcases hrest : s.rest with - | ⟨m, rest⟩
  · rw [hrest] at hnames hrun
    subst hnames
    refine .over ?_ ?_ hthrough hothers' hunended' <;> rw [hrun]
    · exact (World.task?_finish _ id _ id).trans (if_pos rfl)
    · exact List.lookup_cons_self
  · rw [hrest] at hnames hrun
    have htask : (v.run b (events ++ [.answer id source])).task? id =
        some (.sweep ⟨m, .placement, rest, .under answers' (behind ++ [s.current])⟩) := by
      rw [hrun]
      exact (World.task?_wait _ id _ id).trans (if_pos rfl)
    have hahead : m ∉ behind ++ [s.current] := by
      rw [hnames, List.append_cons] at hnodup
      exact fun hmem ↦ (List.nodup_append.1 hnodup).2.2 _ hmem _ List.mem_cons_self rfl
    refine .under htask (hnames.trans (List.append_cons ..)) rfl hthrough ?_
      (fun n hn _ ↦ hothers' n hn) hunended' ?_
    · rw [hothers' m hahead]
      exact .placement
    · have hrank := s.stage.rank_le
      rw [answersIn_concat_answer, List.length_append]
      show answersIn events + 1 ≤ 3 * (behind.length + 1) + 0
      omega

/-- **An answer to a sweep left alone** takes the store in hand on its course, or the sweep on to
the next. -/
theorem Sweeping.answered {names : List String} (hnodup : names.Nodup)
    (hsubscribed : ∀ n ∈ names, (v.cache.standing n).shelf.store ≠ none)
    (h : Sweeping b v id names events) (hcalm : (v.run b events).cache.Calm b) (source : Source) :
    Sweeping b v id names (events ++ [.answer id source]) ∧
      (v.run b (events ++ [.answer id source])).cache.phase = (v.run b events).cache.phase := by
  rcases h with @⟨s, behind, answers, time, ht, hnames, htally, hbehind, hcourse, hothers, hended,
    hcount⟩ | @⟨answers, time, ht, ho, hbehind, hothers, hended⟩
  · have hrun : v.run b (events ++ [.answer id source]) =
        (v.run b events).continueSweep id (s.resume b source (v.run b events).cache) := by
      rw [World.run_concat, World.step_answer_of_some ht]
      rfl
    have hflight : (v.run b events).flight? (.call id) =
        some ⟨.replace, s.current, s.stage⟩ := by
      rw [World.flight?, ht]
      rfl
    have hin : (v.cache.standing s.current).shelf.store = none →
        Cache.Install.replace = .upsert := fun hnone ↦
      absurd hnone (hsubscribed s.current (by rw [hnames]; simp))
    have hnext : Refresh.Outlook (Answered b v id s.current (events ++ [.answer id source]))
        s.current (v.cache.standing s.current) (v.run b events).cache s.stage.rank
        (Refresh.resume b .replace s.current s.stage source (v.run b events).cache) :=
      Refresh.outlook hcalm hin (hcourse.mono fun _ _ ↦ .concat)
        ⟨events, .replace, List.prefix_rfl, hflight⟩
    have hfresh : s.current ∉ behind := by
      rw [hnames] at hnodup
      exact fun hmem ↦ (List.nodup_append.1 hnodup).2.2 _ hmem _ List.mem_cons_self rfl
    have hends : ∀ n, n ≠ s.current → ∀ result time,
        Ended b v id n (events ++ [.answer id source]) result time →
          Ended b v id n events result time := fun n hn _ _ h ↦ h.of_ne hflight hn
    unfold Sweep.resume at hrun
    generalize hr : Refresh.resume b .replace s.current s.stage source (v.run b events).cache = next
      at hrun hnext
    rcases hnext with @⟨stage, d, hcourse', hbeside, hrank⟩ |
      @⟨a, -, d, hgiven, rfl, hstanding, hbeside, hrefused⟩
    · have htask : (v.run b (events ++ [.answer id source])).task? id =
          some (.sweep { s with stage }) := by
        rw [hrun]
        exact (World.task?_wait _ id _ id).trans (if_pos rfl)
      have hcache : (v.run b (events ++ [.answer id source])).cache = d := by
        rw [hrun]
        rfl
      have hkept : ∀ n ∈ behind, n ≠ s.current := fun n hn h ↦ hfresh (h ▸ hn)
      refine ⟨.under htask hnames htally
        (fun n hn ↦ (hbehind n hn).still ?_ (hends n (hkept n hn))) ?_
        (fun n hn hne ↦ ?_) (fun n hn result time h ↦ ?_) ?_, ?_⟩
      · rw [hcache]
        exact hbeside.2 n (hkept n hn)
      · rw [hcache]
        exact hcourse'
      · rw [hcache]
        exact (hbeside.2 n hne).trans (hothers n hn hne)
      · by_cases hne : n = s.current
        · subst hne
          exact not_ended_of_waiting hflight (congrArg Prod.fst hr) (hended _ hn) result time h
        · exact hended n hn result time (hends n hne result time h)
      · rw [answersIn_concat_answer]
        show answersIn events + 1 ≤ 3 * behind.length + stage.rank
        omega
      · rw [hcache]
        exact hbeside.1
    · obtain ⟨hswept, hsettled⟩ := Sweep.settled hcalm hstanding hbeside hrefused
      obtain ⟨hsweeping, hbeside'⟩ := Sweeping.turned hnodup hnames htally hbehind hothers hended
        hcount hgiven hends
        (ended_iff_of_ended hflight (congrArg Prod.fst hr) (hended s.current hfresh)) hswept
        hsettled hrun
      exact ⟨hsweeping, hbeside'.1⟩
  · have hrun : v.run b (events ++ [.answer id source]) = v.run b events := by
      rw [World.run_concat, World.step_answer_of_none ht]
    refine ⟨.still (.over ht ho hbehind hothers hended) ?_ ?_ (fun n ↦ ?_) (Or.inl ht), ?_⟩ <;>
      rw [hrun]

/-- **A sweep left alone** goes through its stores one after the other. -/
theorem Sweeping.run {names : List String} (hnodup : names.Nodup)
    (hsubscribed : ∀ n ∈ names, (v.cache.standing n).shelf.store ≠ none)
    (hstart : Sweeping b v id names []) (hcalm : v.cache.Calm b) (halone : Alone id events) :
    Sweeping b v id names events ∧ (v.run b events).cache.phase = .started := by
  induction events using List.reverseRecOn with
  | nil => exact ⟨hstart, hcalm.phase⟩
  | append_singleton events e ih =>
    obtain ⟨hbefore, he⟩ := halone.of_concat
    obtain ⟨h, hphase⟩ := ih hbefore
    rcases he with ⟨source, rfl⟩ | ⟨time, rfl⟩
    · obtain ⟨hnext, hsame⟩ := h.answered hnodup hsubscribed (hcalm.run hphase) source
      exact ⟨hnext, hsame.trans hphase⟩
    · have hrun := World.run_clock b v events time
      refine ⟨h.still (by rw [hrun]; rfl) (by rw [hrun]; rfl) (fun n ↦ by rw [hrun]; rfl)
        (Or.inr ⟨time, rfl⟩), ?_⟩
      rw [hrun]
      exact hphase

/-- A sweep that has got enough answers has returned. -/
theorem Sweeping.returned {names : List String} (h : Sweeping b v id names events)
    (hlong : 3 * names.length ≤ answersIn events) :
    ∃ (answers : String → Answers) (time : String → Option Nat),
      (v.run b events).outcomes.lookup id = some (.ok (.tally (.under answers names))) ∧
      (∀ n ∈ names, Through b v id events n (answers n) (time n)) ∧
      ∀ n, n ∉ names → (v.run b events).cache.standing n = v.cache.standing n := by
  rcases h with @⟨s, behind, answers, time, ht, hnames, htally, hbehind, hcourse, hothers, hended,
    hcount⟩ | @⟨answers, time, ht, ho, hbehind, hothers, hended⟩
  · have hrank := s.stage.rank_le
    have hlength : names.length = behind.length + (s.rest.length + 1) := by
      rw [hnames, List.length_append, List.length_cons]
    omega
  · exact ⟨answers, time, ho, hbehind, hothers⟩

/-- A refresh that has ended is that of a store the sweep is through with. -/
theorem Sweeping.through {names : List String} {result : Except CacheError (Option Store)}
    {time : Option Nat} (h : Sweeping b v id names events)
    (hended : Ended b v id n events result time) :
    n ∈ names ∧ ∃ a, Through b v id events n a time ∧ result = (a.verdict n).map some := by
  rcases h with @⟨s, behind, answers, time', ht, hnames, htally, hbehind, hcourse, hothers,
    hunended, hcount⟩ | @⟨answers, time', ht, ho, hbehind, hothers, hunended⟩
  · have hn : n ∈ behind := Classical.byContradiction fun hn ↦ hunended n hn result time hended
    obtain ⟨hresult, htime⟩ := ((hbehind n hn).ended result time).1 hended
    exact ⟨hnames ▸ List.mem_append_left _ hn, answers n, htime ▸ hbehind n hn, hresult⟩
  · have hn : n ∈ names := Classical.byContradiction fun hn ↦ hunended n hn result time hended
    obtain ⟨hresult, htime⟩ := ((hbehind n hn).ended result time).1 hended
    exact ⟨hn, answers n, htime ▸ hbehind n hn, hresult⟩

/-! ### From the call on -/

theorem World.step_sweep (order : List String) (hnew : w.knows id = false)
    (hphase : w.cache.phase = .started) :
    w.step b (.call id (.sweep order)) =
      w.continueSweep id (Sweep.start (visiting order w.cache) w.cache) := by
  simp only [World.step, hnew, Bool.false_eq_true, if_false, World.call, hphase, Phase.usable]

/-- Making the call touches nothing. -/
theorem World.beside_step_sweep (order : List String) (hnew : w.knows id = false)
    (hphase : w.cache.phase = .started) :
    (∀ n, (w.step b (.call id (.sweep order))).cache.standing n = w.cache.standing n) ∧
      (w.step b (.call id (.sweep order))).cache.phase = .started := by
  rw [step_sweep order hnew hphase, cache_continueSweep]
  rcases visiting order w.cache with - | ⟨m, rest⟩
  · exact ⟨fun _ ↦ rfl, hphase⟩
  · exact ⟨fun n ↦ Cache.standing_note rfl n, hphase⟩

theorem sweeping_nil {order : List String} (hnew : w.knows id = false)
    (hphase : w.cache.phase = .started) :
    Sweeping b (w.step b (.call id (.sweep order))) id (World.visiting order w.cache) [] := by
  have hstep := World.step_sweep (b := b) order hnew hphase
  -- There is nothing behind, whatever the answers are.
  let answers : String → Answers := fun _ ↦ ⟨.ok none, fun _ ↦ .error .timeout, .error .timeout⟩
  have hbehind : ∀ n ∈ [], Through b (w.step b (.call id (.sweep order))) id [] n (answers n)
      none := fun n hn ↦ by cases hn
  rcases hnames : World.visiting order w.cache with - | ⟨m, rest⟩
  · rw [hnames] at hstep
    refine .over ?_ ?_ hbehind (fun _ _ ↦ rfl) fun _ _ _ _ ↦ not_ended_nil
    · rw [World.run_nil, hstep]
      exact (World.task?_finish _ id _ id).trans (if_pos rfl)
    · rw [World.run_nil, hstep]
      exact List.lookup_cons_self
  · rw [hnames] at hstep
    have htask : ((w.step b (.call id (.sweep order))).run b []).task? id =
        some (.sweep ⟨m, .placement, rest, .zero⟩) := by
      rw [World.run_nil, hstep]
      exact (World.task?_wait _ id _ id).trans (if_pos rfl)
    exact .under htask rfl rfl hbehind .placement (fun _ _ _ ↦ rfl) (fun _ _ _ _ ↦ not_ended_nil)
      (Nat.zero_le _)

/-- **The sweep of a calm cache**, from the call on. -/
theorem sweeping_of_alone {order : List String} (hcalm : w.cache.Calm b) (hnew : w.knows id = false)
    (halone : Alone id events) :
    Sweeping b (w.step b (.call id (.sweep order))) id (World.visiting order w.cache) events := by
  obtain ⟨hstanding, hphase⟩ := World.beside_step_sweep (b := b) order hnew hcalm.phase
  have hcalm' : (w.run b [.call id (.sweep order)]).cache.Calm b := hcalm.run hphase
  refine (Sweeping.run (Cache.nodup_visiting order w.cache) (fun n hn ↦ ?_)
    (sweeping_nil hnew hcalm.phase) hcalm' halone).1
  rw [hstanding]
  exact Cache.mem_visiting_iff.1 hn

/-- **A sweep from one source**, left alone until it has got enough answers, has returned. Each
store it has visited stands as the answers of the source about it mean, and the others stand as they
did. -/
theorem sweep_of_source {source : Source} (order : List String) (hcalm : w.cache.Calm b)
    (hnew : w.knows id = false) (halone : AloneWith source id events)
    (hlong : 3 * w.cache.stores.size ≤ answersIn events) :
    ((w.step b (.call id (.sweep order))).run b events).outcomes.lookup id =
        some (.ok (.tally (.under source.about (World.visiting order w.cache)))) ∧
      (∀ n, w.cache.stores.get? n ≠ none → ∃ time,
        ((w.step b (.call id (.sweep order))).run b events).cache.standing n =
          (w.cache.standing n).swept n (source.about n) time ∧
        ∀ result time', Ended b (w.step b (.call id (.sweep order))) id n events result time' ↔
          result = ((source.about n).verdict n).map some ∧ time' = time) ∧
      ∀ n, w.cache.stores.get? n = none →
        ((w.step b (.call id (.sweep order))).run b events).cache.standing n =
          w.cache.standing n := by
  obtain ⟨hstanding, -⟩ := World.beside_step_sweep (b := b) order hnew hcalm.phase
  have hlength : (World.visiting order w.cache).length = w.cache.stores.size := by
    rw [(Cache.visiting_perm order w.cache).length_eq]
    exact List.length_map _
  obtain ⟨answers, time, ho, hbehind, hothers⟩ :=
    (sweeping_of_alone hcalm hnew halone.alone).returned (hlength ▸ hlong)
  have hfrom : ∀ n stage s,
      Answered b (w.step b (.call id (.sweep order))) id n events stage s → s = source :=
    fun _ _ _ h ↦ h.source_eq halone
  refine ⟨?_, fun n hn ↦ ?_, fun n hn ↦ ?_⟩
  · rw [ho, Tally.under_congr fun n hn ↦ (hbehind n hn).given.verdict_eq (hfrom n)]
  · have hthrough := hbehind n (Cache.mem_visiting_iff.2 hn)
    refine ⟨time n, ?_, fun result time' ↦ ?_⟩
    · rw [hthrough.standing, hthrough.given.swept_eq (hfrom n), hstanding]
    · rw [hthrough.ended, hthrough.given.verdict_eq (hfrom n)]
  · exact (hothers n fun hmem ↦ Cache.mem_visiting_iff.1 hmem hn).trans (hstanding n)

end StoreCache
