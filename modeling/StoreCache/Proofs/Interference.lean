import StoreCache.Proofs.Flight
import StoreCache.Proofs.Mirror
import StoreCache.Proofs.Sweeping

/-!
# Sweeps among others

A sweep waits three times for every store, and anything may happen while it waits: stores are
unsubscribed by callers and by callbacks, subscribed again, found gone by other sweeps. This module
says what the tally of such a sweep means.

The evidence is a **log of conclusions**, one for each store in the order of the sweep: the answer
that has ended the refresh of the store, the cache it found, how the refresh ended and the cache it
left (`Concluded`). The log grows by one conclusion at a time, it is complete, and the tally is read
off it (`Interleaved`). So every store counts in one column and in no other.

Which column that is depends on the last answer alone. Given a usable answer and a cache in use, a
store counts as passed over **only if its record has gone when the next record comes**. If it goes
later, the refresh ends with the refusal that there is no such store, and it counts as removed
although the sweep has removed nothing. So the number of stores removed is the number of records
the sweep has taken out exactly if every store counted there still had its record. All this together
is what a tally means (`Tally.Means`, `tally_of_sweep`).
-/

namespace StoreCache

/-! ### Columns -/

/-- The columns of a tally. -/
inductive Column
  | refreshed
  | failed
  | removed
  | skipped
  deriving DecidableEq

/-- The column in which a store counts whose refresh has ended in this way. -/
def Column.of : Except CacheError (Option Store) → Column
  | .ok (some _) => .refreshed
  | .ok none => .skipped
  | .error e => if e.isNoSuchStore then .removed else .failed

@[simp] theorem Column.of_some (s : Store) : Column.of (.ok (some s)) = .refreshed := rfl

@[simp] theorem Column.of_none : Column.of (.ok none) = .skipped := rfl

@[simp] theorem Column.of_noSuchStore (name : String) :
    Column.of (.error (.noSuchStore name none)) = .removed :=
  rfl

/-- The number in a column. -/
def Tally.get (t : Tally) : Column → Nat
  | .refreshed => t.refreshed
  | .failed => t.failed
  | .removed => t.removed
  | .skipped => t.skipped

theorem Tally.get_count (t : Tally) (result : Except CacheError (Option Store)) (column : Column) :
    (t.count result).get column =
      t.get column + if Column.of result = column then 1 else 0 := by
  rcases result with err | - | s
  · unfold Column.of Tally.count
    by_cases hgone : err.isNoSuchStore <;> cases column <;> simp [hgone, Tally.get]
  · cases column <;> simp [Column.of, Tally.count, Tally.get]
  · cases column <;> simp [Column.of, Tally.count, Tally.get]

/-! ### Conclusions -/

/-- How a sweep has come to a conclusion about a store: the answer to the question that its refresh
had open at the stage found one cache, ended the refresh with the result, and left the other. -/
structure Conclusion where
  name : String
  stage : Stage
  source : Source
  found : Cache
  result : Except CacheError (Option Store)
  left : Cache

namespace Conclusion

/-- The column in which the store counts. -/
def column (k : Conclusion) : Column := .of k.result

/-- The sweep itself takes the record of the store out. -/
def TakesOut (k : Conclusion) : Prop := k.column = .removed ∧ k.left.stores.get? k.name ≠ none

instance (k : Conclusion) : Decidable k.TakesOut :=
  inferInstanceAs (Decidable (k.column = .removed ∧ k.left.stores.get? k.name ≠ none))

end Conclusion

/-- The tally of conclusions. -/
def Tally.of (log : List Conclusion) : Tally := log.foldl (fun t k ↦ t.count k.result) .zero

theorem Tally.of_concat (log : List Conclusion) (k : Conclusion) :
    Tally.of (log ++ [k]) = (Tally.of log).count k.result :=
  List.foldl_concat ..

/-- **A tally counts the conclusions by column.** -/
theorem Tally.get_of (log : List Conclusion) (column : Column) :
    (Tally.of log).get column = log.countP (·.column = column) := by
  induction log using List.reverseRecOn with
  | nil => cases column <;> rfl
  | append_singleton log k ih =>
    rw [Tally.of_concat, Tally.get_count, ih, List.countP_append, List.countP_singleton,
      Conclusion.column]
    simp

theorem Tally.total_of (log : List Conclusion) : (Tally.of log).total = log.length := by
  induction log using List.reverseRecOn with
  | nil => rfl
  | append_singleton log k ih =>
    rw [Tally.of_concat, Tally.total_count, ih, List.length_append, List.length_singleton]

section Sweeps

variable {b : Behaviour} {v w : World} {id : CallId} {names : List String} {events : List Event}
  {e : Event} {k : Conclusion}

/-- In the run of `events` from `v` the sweep `id` has come to this conclusion. -/
def Concluded (b : Behaviour) (v : World) (id : CallId) (events : List Event) (k : Conclusion) :
    Prop :=
  ∃ earlier, earlier ++ [.answer id k.source] <+: events ∧
    (v.run b earlier).flight? (.call id) = some ⟨.replace, k.name, k.stage⟩ ∧
    (v.run b earlier).cache = k.found ∧
    Refresh.resume b .replace k.name k.stage k.source k.found = (.ended k.result, k.left)

theorem not_concluded_nil : ¬ Concluded b v id [] k := by
  rintro ⟨earlier, hp, -⟩
  simpa using List.prefix_nil.1 hp

theorem Concluded.concat (h : Concluded b v id events k) : Concluded b v id (events ++ [e]) k := by
  obtain ⟨earlier, hp, hrest⟩ := h
  exact ⟨earlier, hp.trans (List.prefix_append events [e]), hrest⟩

/-- Only an answer leads to a conclusion, and only about the store in hand. -/
theorem Concluded.of_concat (h : Concluded b v id (events ++ [e]) k) :
    Concluded b v id events k ∨ e = .answer id k.source ∧
      (v.run b events).flight? (.call id) = some ⟨.replace, k.name, k.stage⟩ ∧
      (v.run b events).cache = k.found ∧
      Refresh.resume b .replace k.name k.stage k.source k.found = (.ended k.result, k.left) := by
  obtain ⟨earlier, hp, hrest⟩ := h
  rcases List.prefix_concat_iff.1 hp with heq | hp
  · obtain ⟨rfl, hlast⟩ := List.append_inj' heq rfl
    exact Or.inr ⟨(List.singleton_inj.1 hlast).symm, hrest⟩
  · exact Or.inl ⟨earlier, hp, hrest⟩

theorem concluded_concat_iff (he : ∀ source, e ≠ .answer id source) :
    Concluded b v id (events ++ [e]) k ↔ Concluded b v id events k :=
  ⟨fun h ↦ h.of_concat.resolve_right fun ⟨hanswer, _⟩ ↦ he k.source hanswer, .concat⟩

theorem concluded_concat_iff_of_none (ht : (v.run b events).task? id = none) :
    Concluded b v id (events ++ [e]) k ↔ Concluded b v id events k := by
  refine ⟨fun h ↦ h.of_concat.resolve_right fun ⟨_, hflight, _⟩ ↦ ?_, .concat⟩
  rw [World.flight?, ht] at hflight
  cases hflight

/-- A refresh that waits on leads to no conclusion. -/
theorem concluded_concat_of_waiting {n : String} {stage stage' : Stage} {source : Source}
    (hflight : (v.run b events).flight? (.call id) = some ⟨.replace, n, stage⟩)
    (hwaits : (Refresh.resume b .replace n stage source (v.run b events).cache).1 =
      .waiting stage') :
    Concluded b v id (events ++ [.answer id source]) k ↔ Concluded b v id events k := by
  refine ⟨fun h ↦ h.of_concat.resolve_right ?_, .concat⟩
  rintro ⟨he, hflight', hfound, hended⟩
  obtain ⟨name, stage, source', found, result, left⟩ := k
  cases he
  cases hflight.symm.trans hflight'
  subst hfound
  rw [hended] at hwaits
  cases hwaits

/-- A refresh that ends leads to one conclusion. -/
theorem concluded_concat_of_ended {n : String} {stage : Stage} {source : Source}
    {result : Except CacheError (Option Store)} {c : Cache}
    (hflight : (v.run b events).flight? (.call id) = some ⟨.replace, n, stage⟩)
    (hended : Refresh.resume b .replace n stage source (v.run b events).cache =
      (.ended result, c)) :
    Concluded b v id (events ++ [.answer id source]) k ↔
      Concluded b v id events k ∨ k = ⟨n, stage, source, (v.run b events).cache, result, c⟩ := by
  constructor
  · refine fun h ↦ h.of_concat.imp_right ?_
    rintro ⟨he, hflight', hfound, hended'⟩
    obtain ⟨name, stage, source', found, result', left⟩ := k
    cases he
    cases hflight.symm.trans hflight'
    subst hfound
    cases hended.symm.trans hended'
    rfl
  · rintro (h | rfl)
    · exact h.concat
    · exact ⟨events, List.prefix_rfl, hflight, rfl, hended⟩

/-! ### The log of a sweep -/

/-- How many answers the call has been given. -/
def answersTo (id : CallId) (events : List Event) : Nat :=
  events.countP fun e ↦ decide (e.answer?.map Prod.fst = some (.call id))

theorem answersTo_concat_answer (id : CallId) (events : List Event) (source : Source) :
    answersTo id (events ++ [.answer id source]) = answersTo id events + 1 := by
  simp [answersTo, List.countP_append, Event.answer?]

theorem answersTo_concat_of_ne (he : ∀ source, e ≠ .answer id source) :
    answersTo id (events ++ [e]) = answersTo id events := by
  rw [answersTo, List.countP_append, List.countP_singleton, if_neg, answersTo, Nat.add_zero]
  intro hanswer
  obtain ⟨⟨a, source⟩, hsource, rfl⟩ := Option.map_eq_some_iff.1 (of_decide_eq_true hanswer)
  exact he source (Event.eq_answer hsource)

/-- Where a sweep over the stores `names` has come to among others since the world `v`: it is under
way, it has returned, or its caller has given it up. -/
inductive Interleaved (b : Behaviour) (v : World) (id : CallId) (names : List String)
    (events : List Event) : Prop
  | under {s : Sweep} {log : List Conclusion} (ht : (v.run b events).task? id = some (.sweep s))
    (houtcome : (v.run b events).outcomes.lookup id = none)
    (hnames : names = log.map Conclusion.name ++ s.current :: s.rest) (htally : s.tally = .of log)
    (hlog : ∀ k, Concluded b v id events k ↔ k ∈ log)
    (hcount : answersTo id events ≤ 3 * log.length + s.stage.rank)
  | over {log : List Conclusion} (ht : (v.run b events).task? id = none)
    (houtcome : (v.run b events).outcomes.lookup id = some (.ok (.tally (.of log))))
    (hnames : names = log.map Conclusion.name) (hlog : ∀ k, Concluded b v id events k ↔ k ∈ log)
  | broken (ht : (v.run b events).task? id = none)
    (houtcome : (v.run b events).outcomes.lookup id = none) (hmem : .abandon id ∈ events)

/-- An event that does not answer the sweep leaves it where it is, or gives it up. -/
theorem Interleaved.unanswered (h : Interleaved b v id names events)
    (hknows : (v.run b events).knows id) (he : ∀ source, e ≠ .answer id source) :
    Interleaved b v id names (events ++ [e]) := by
  have hrun := World.run_concat (b := b) v events e
  rcases h with @⟨s, log, ht, houtcome, hnames, htally, hlog, hcount⟩ |
    @⟨log, ht, houtcome, hnames, hlog⟩ | ⟨ht, houtcome, hmem⟩
  · obtain ⟨htask, hsame⟩ := World.step_of_unanswered (b := b) hknows ht (by simp) he
    rw [← hrun] at htask hsame
    rcases htask with htask | hnone
    · exact .under htask (hsame.trans houtcome) hnames htally
        (fun k ↦ (concluded_concat_iff he).trans (hlog k))
        (Nat.le_trans (Nat.le_of_eq (answersTo_concat_of_ne he)) hcount)
    · have habandon : e = .abandon id :=
        World.eq_abandon hknows ht (by simp) he (hrun ▸ hnone)
      exact .broken hnone (hsame.trans houtcome) (by simp [habandon])
  · obtain ⟨htask, hsame⟩ := World.step_of_task?_none (b := b) hknows ht e
    rw [← hrun] at htask hsame
    exact .over htask (hsame.trans houtcome) hnames
      fun k ↦ (concluded_concat_iff he).trans (hlog k)
  · obtain ⟨htask, hsame⟩ := World.step_of_task?_none (b := b) hknows ht e
    rw [← hrun] at htask hsame
    exact .broken htask (hsame.trans houtcome) (List.mem_append_left [e] hmem)

/-- A refresh that waits again has come one stage further. -/
theorem Refresh.rank_of_waiting {mode : Cache.Install} {name : String} {stage stage' : Stage}
    {source : Source} {c : Cache}
    (h : (Refresh.resume b mode name stage source c).1 = .waiting stage') :
    stage'.rank = stage.rank + 1 := by
  have hresumed := Refresh.resumed b mode name stage source c
  generalize Refresh.resume b mode name stage source c = next at h hresumed
  cases hresumed with
  | placed | installed =>
    cases h
    rfl
  | refused | unusable | passedOver | lost | absent | done => cases h

/-- A sweep that turns to the stores `rest` with its log complete is under way, or has returned. -/
theorem Interleaved.of_advance {log : List Conclusion} {rest : List String} {c : Cache}
    (hrun : v.run b events = w.continueSweep id (Sweep.advance (.of log) rest c))
    (houtcome : w.outcomes.lookup id = none) (hnames : names = log.map Conclusion.name ++ rest)
    (hlog : ∀ k, Concluded b v id events k ↔ k ∈ log)
    (hcount : answersTo id events ≤ 3 * log.length) : Interleaved b v id names events := by
  rcases rest with - | ⟨m, rest⟩
  · refine .over ?_ ?_ (hnames.trans (List.append_nil _)) hlog <;> rw [hrun]
    · exact (World.task?_finish _ id _ id).trans (if_pos rfl)
    · exact List.lookup_cons_self
  · refine .under (s := ⟨m, .placement, rest, .of log⟩) ?_ ?_ hnames rfl hlog hcount <;> rw [hrun]
    · exact (World.task?_wait _ id _ id).trans (if_pos rfl)
    · exact houtcome

/-- **An answer to the sweep** takes the refresh in hand a stage further, or leads to a conclusion,
and the sweep turns to the next store or returns. -/
theorem Interleaved.answered (h : Interleaved b v id names events) (source : Source) :
    Interleaved b v id names (events ++ [.answer id source]) := by
  rcases h with @⟨s, log, ht, houtcome, hnames, htally, hlog, hcount⟩ |
    @⟨log, ht, houtcome, hnames, hlog⟩ | ⟨ht, houtcome, hmem⟩
  · have hrun : v.run b (events ++ [.answer id source]) =
        (v.run b events).continueSweep id (s.resume b source (v.run b events).cache) := by
      rw [World.run_concat, World.step_answer_of_some ht]
      rfl
    have hflight : (v.run b events).flight? (.call id) = some ⟨.replace, s.current, s.stage⟩ := by
      rw [World.flight?, ht]
      rfl
    have hanswers := answersTo_concat_answer id events source
    unfold Sweep.resume at hrun
    rcases hr : Refresh.resume b .replace s.current s.stage source (v.run b events).cache with
      ⟨stage | result, c⟩ <;> rw [hr] at hrun
    · have hwaits := congrArg Prod.fst hr
      refine .under (s := { s with stage }) ?_ ?_ hnames htally (fun k ↦ ?_) ?_
      · rw [hrun]
        exact (World.task?_wait _ id _ id).trans (if_pos rfl)
      · rw [hrun]
        exact houtcome
      · exact (concluded_concat_of_waiting hflight hwaits).trans (hlog k)
      · have hrank := Refresh.rank_of_waiting hwaits
        show answersTo id _ ≤ 3 * log.length + stage.rank
        omega
    · -- The conclusion that is new is about the store in hand.
      let k : Conclusion := ⟨s.current, s.stage, source, (v.run b events).cache, result, c⟩
      have htally : s.tally.count result = .of (log ++ [k]) := by rw [Tally.of_concat, ← htally]
      dsimp only at hrun
      rw [htally] at hrun
      refine .of_advance hrun houtcome ?_ (fun k' ↦ ?_) ?_
      · rw [hnames, List.map_append, List.append_assoc]
        rfl
      · rw [concluded_concat_of_ended hflight hr, hlog k', List.mem_append, List.mem_singleton]
      · have hrank := s.stage.rank_le
        rw [List.length_append, List.length_singleton]
        omega
  · have hrun : v.run b (events ++ [.answer id source]) = v.run b events := by
      rw [World.run_concat, World.step_answer_of_none ht]
    exact .over (hrun ▸ ht) (hrun ▸ houtcome) hnames
      fun k ↦ (concluded_concat_iff_of_none ht).trans (hlog k)
  · have hrun : v.run b (events ++ [.answer id source]) = v.run b events := by
      rw [World.run_concat, World.step_answer_of_none ht]
    exact .broken (hrun ▸ ht) (hrun ▸ houtcome) (List.mem_append_left _ hmem)

/-- **A sweep among others** comes to one conclusion after the other. -/
theorem Interleaved.run (hstart : Interleaved b v id names []) (hknows : v.knows id) :
    Interleaved b v id names events := by
  induction events using List.reverseRecOn with
  | nil => exact hstart
  | append_singleton events e ih =>
    by_cases he : ∃ source, e = .answer id source
    · obtain ⟨source, rfl⟩ := he
      exact ih.answered source
    · exact ih.unanswered (World.run_knows hknows events) (not_exists.1 he)

/-- A sweep that is not given up returns once it has got three answers for each store. -/
theorem Interleaved.returned (h : Interleaved b v id names events) (hstays : .abandon id ∉ events)
    (hlong : 3 * names.length ≤ answersTo id events) :
    (v.run b events).outcomes.lookup id ≠ none := by
  rcases h with @⟨s, log, -, -, hnames, -, -, hcount⟩ | @⟨log, -, houtcome, -, -⟩ | ⟨-, -, hmem⟩
  · have hrank := s.stage.rank_le
    have hlength : names.length = log.length + (s.rest.length + 1) := by
      rw [hnames, List.length_append, List.length_map, List.length_cons]
    omega
  · rw [houtcome]
    exact Option.some_ne_none _
  · exact absurd hmem hstays

/-- A sweep that has returned has returned the tally of its log. -/
theorem Interleaved.log_of_outcome (h : Interleaved b v id names events) {o : Outcome}
    (ho : (v.run b events).outcomes.lookup id = some o) :
    ∃ log, o = .ok (.tally (.of log)) ∧ log.map Conclusion.name = names ∧
      ∀ k, Concluded b v id events k ↔ k ∈ log := by
  rcases h with ⟨-, houtcome, -⟩ | @⟨log, -, houtcome, hnames, hlog⟩ | ⟨-, houtcome, -⟩
  · cases ho.symm.trans houtcome
  · exact ⟨log, Option.some.inj (ho.symm.trans houtcome), hnames.symm, hlog⟩
  · cases ho.symm.trans houtcome

/-! ### From the call on -/

theorem interleaved_nil (order : List String) (hnew : w.knows id = false)
    (hphase : w.cache.phase = .started) :
    Interleaved b (w.step b (.call id (.sweep order))) id (World.visiting order w.cache) [] ∧
      (w.step b (.call id (.sweep order))).knows id := by
  have hstep := World.step_sweep (b := b) order hnew hphase
  have hknows : (w.step b (.call id (.sweep order))).knows id := by
    rw [hstep]
    exact (World.dealt_continueSweep w id _).knows_self
  have hunknown : w.outcomes.lookup id = none := by
    simp only [World.knows, Bool.or_eq_false_iff] at hnew
    simpa using hnew.1.2
  have hempty : ∀ k, Concluded b (w.step b (.call id (.sweep order))) id [] k ↔
      k ∈ ([] : List Conclusion) :=
    fun k ↦ iff_of_false not_concluded_nil (by simp)
  have hrun : (w.step b (.call id (.sweep order))).run b [] =
      w.continueSweep id (Sweep.advance (.of []) (World.visiting order w.cache) w.cache) := hstep
  exact ⟨.of_advance hrun hunknown rfl hempty (Nat.zero_le _), hknows⟩

/-! ### What a conclusion means -/

/-- The column of a store whose last answer is usable and finds a cache in use. -/
structure Conclusion.Sorted (k : Conclusion) : Prop where
  skipped : k.column = .skipped ↔
    (∃ p, k.stage = .record p) ∧ k.found.stores.get? k.name = none
  removed : k.column = .removed ↔
    ((∃ p, k.stage = .record p) ∧ k.found.stores.get? k.name ≠ none) ∨
      (∃ s, k.stage = .schemas s) ∧ k.found.stores.get? k.name = none
  refreshed : k.column = .refreshed ↔
    (∃ s, k.stage = .schemas s) ∧ k.found.stores.get? k.name ≠ none
  left_of_removed : k.column = .removed → k.left.stores.get? k.name = none

/-- A record that replaces another finds one there. -/
theorem Cache.get?_ne_none_of_install {c d : Cache} {p : Placement} {s t : Store}
    (h : c.install b .replace p s = (.ok (some t), d)) : c.stores.get? s.name ≠ none := by
  have hi := installation (b := b) .replace p s c
  rw [h] at hi
  cases hi with
  | unchanged _ hs => exact fun hnone ↦ by rw [hs] at hnone; cases hnone
  | changed _ _ hmode => exact fun hnone ↦ nomatch hmode hnone

/-- **Which column it is.** A store counts as skipped if its record has gone when the next record
comes, and as removed if it goes after that. -/
theorem Concluded.sorted (h : Concluded b v id events k)
    (husable : k.source.refusal? k.name k.stage = none) (hphase : k.found.phase = .started) :
    k.Sorted := by
  obtain ⟨earlier, -, -, -, hr⟩ := h
  obtain ⟨name, stage, source, found, result, left⟩ := k
  dsimp only at husable hphase hr
  have hresumed := Refresh.resumed b .replace name stage source found
  rw [hr] at hresumed
  cases hresumed with
  | refused hrefusal =>
    rw [husable] at hrefusal
    cases hrefusal
  | unusable hunusable =>
    rw [Phase.usable_eq_ok_iff.2 hphase] at hunusable
    cases hunusable
  | passedOver _ hout =>
    exact ⟨by simp [Conclusion.column, hout], by simp [Conclusion.column, hout],
      by simp [Conclusion.column], by simp [Conclusion.column]⟩
  | lost _ hname hinstall hout =>
    have hin : found.stores.get? name ≠ none := hname ▸ Cache.get?_ne_none_of_install hinstall
    exact ⟨by simp [Conclusion.column, hin], by simp [Conclusion.column, hin],
      by simp [Conclusion.column], fun _ ↦ hout⟩
  | absent hout =>
    exact ⟨by simp [Conclusion.column], by simp [Conclusion.column, hout],
      by simp [Conclusion.column, hout], fun _ ↦ hout⟩
  | done _ _ hin =>
    exact ⟨by simp [Conclusion.column], by simp [Conclusion.column, hin],
      by simp [Conclusion.column, hin], by simp [Conclusion.column]⟩

/-- A usable answer to the refresh that the sweep had in flight of the store `n`, at this stage, has
found a cache in use and no record of the store. -/
def GoneAt (b : Behaviour) (v : World) (id : CallId) (n : String) (events : List Event)
    (stage : Stage) : Prop :=
  ∃ earlier source, earlier ++ [.answer id source] <+: events ∧
    (v.run b earlier).flight? (.call id) = some ⟨.replace, n, stage⟩ ∧
    source.refusal? n stage = none ∧ (v.run b earlier).cache.phase = .started ∧
    (v.run b earlier).cache.stores.get? n = none

/-- **A refresh in flight ends with the first answer that finds its store gone**, once it has got
beyond the placement. -/
theorem GoneAt.concluded {n : String} {stage : Stage} (h : GoneAt b v id n events stage)
    (hstage : stage ≠ .placement) :
    ∃ k, Concluded b v id events k ∧ k.name = n ∧ k.stage = stage ∧
      k.found.stores.get? k.name = none ∧ k.Sorted := by
  obtain ⟨earlier, source, hp, hflight, husable, hphase, hgone⟩ := h
  have hended : ∃ result left,
      Refresh.resume b .replace n stage source (v.run b earlier).cache = (.ended result, left) := by
    have hresumed := Refresh.resumed b .replace n stage source (v.run b earlier).cache
    generalize Refresh.resume b .replace n stage source (v.run b earlier).cache = next at hresumed ⊢
    cases hresumed with
    | placed => exact absurd rfl hstage
    | installed _ hname hinstall =>
      exact absurd (hname ▸ hgone) (Cache.get?_ne_none_of_install hinstall)
    | refused | unusable | passedOver | lost | absent | done => exact ⟨_, _, rfl⟩
  obtain ⟨result, left, hr⟩ := hended
  have hconcluded : Concluded b v id events
      ⟨n, stage, source, (v.run b earlier).cache, result, left⟩ :=
    ⟨earlier, hp, hflight, rfl, hr⟩
  exact ⟨_, hconcluded, rfl, rfl, hgone, hconcluded.sorted husable hphase⟩

/-- What is written from the cache `c` on takes the record `s` of the store `n` out once, and every
listener that is there throughout is told so once. -/
def Cache.LeavesOnce (n : String) (s : Store) (c : Cache) (new : List Entry) : Prop :=
  changesOf n c.stores new = [(.deleted, s)] ∧
    ∀ l ∈ c.roster, .unregistered l ∉ new → toldOf l n new = [(.deleted, s)]

/-- **A removal takes the record out once.** -/
theorem Cache.leavesOnce_remove {c : Cache} {n : String} {s : Store} (hnamed : c.Named)
    (hnodup : c.roster.Nodup) (hs : c.stores.get? n = some s) :
    ∃ new, (c.remove b n).journal = new ++ c.journal ∧ c.LeavesOnce n s new := by
  have hchronicled : Chronicled c (c.remove b n) := cascading_chronicled.remove n c
  obtain ⟨new, hjournal, hsparing⟩ := (cascading_sparing n).remove (b := b) n c
  have hgone : (c.remove b n).stores.get? n = none :=
    congrArg Shelf.store (shelf_remove_self (b := b) n c)
  refine ⟨new, hjournal, ?_, fun l hl hstays ↦ ?_⟩
  · obtain ⟨new', hnew', hchronicled⟩ := hchronicled
    obtain rfl : new = new' := List.append_cancel_right (hjournal.symm.trans hnew')
    obtain ⟨-, hstores, hfaithful⟩ := hchronicled hnamed
    rcases changesOf_of_sparing hfaithful hsparing with ⟨hsame, -⟩ | ⟨r, hr, -, -, hchanges⟩
    · rw [← hstores, hgone, hs] at hsame
      cases hsame
    · obtain rfl : s = r := Option.some.inj (hs.symm.trans hr)
      exact hchanges
  · rcases toldOf_of_sparing ⟨hnodup, hnamed, hl⟩ hjournal (told_remove n c) hchronicled hsparing
      hstays with ⟨hsame, -⟩ | ⟨r, hr, -, -, htold⟩
    · rw [hgone, hs] at hsame
      cases hsame
    · obtain rfl : s = r := Option.some.inj (hs.symm.trans hr)
      exact htold

/-- The refresh that a conclusion has ended leaves listeners registered once and records under their
own names. -/
theorem Concluded.left_named (h : Concluded b v id events k) (hnamed : v.cache.Named)
    (hnodup : v.cache.roster.Nodup) : k.left.Named ∧ k.left.roster.Nodup := by
  obtain ⟨earlier, -, hflight, hfound, hr⟩ := h
  have hpieces : Pieces b (v.run b earlier) (.answer id k.source) k.found k.left := by
    have hpieces := Refresh.pieces (b := b) (e := .answer id k.source) rfl hflight
    rwa [hfound, hr] at hpieces
  have hbegins : k.found.Named ∧ k.found.roster.Nodup := by
    rw [← hfound]
    obtain ⟨_, -, htold⟩ := run_told b v earlier ""
    exact ⟨(run_recorded b v earlier).named hnamed, (htold hnodup).1⟩
  generalize k.left = left at hpieces ⊢
  induction hpieces with
  | refl => exact hbegins
  | tail _ hp ih =>
    obtain ⟨_, -, htold⟩ := hp.told (l := "")
    exact ⟨hp.recorded.named ih.1, (htold ih.2).1⟩

/-- **What the sweep takes out itself**: the entries it writes after a refresh whose store is found
gone, while its record is still there, take the record out once. -/
theorem Concluded.takesOut (h : Concluded b v id events k) (hnamed : v.cache.Named)
    (hnodup : v.cache.roster.Nodup) (hcolumn : k.column = .removed) {s : Store}
    (hs : k.left.stores.get? k.name = some s) :
    ∃ new, new ++ k.left.journal <:+ (v.run b events).cache.journal ∧
      k.left.LeavesOnce k.name s new := by
  obtain ⟨hnamed, hnodup⟩ := h.left_named hnamed hnodup
  obtain ⟨new, hjournal, hleaves⟩ := Cache.leavesOnce_remove (b := b) hnamed hnodup hs
  refine ⟨new, ?_, hleaves⟩
  obtain ⟨earlier, ⟨later, rfl⟩, hflight, hfound, hr⟩ := h
  obtain ⟨sweep, hname, hstage, hcache⟩ := World.cache_step_of_replace (b := b)
    (e := .answer id k.source) rfl hflight
  have hsettled : Sweep.settle b k.name k.result k.left = k.left.remove b k.name := by
    rcases hresult : k.result with err | r
    · rw [Conclusion.column, hresult, Column.of] at hcolumn
      split at hcolumn
      · rename_i hgone
        exact if_pos hgone
      · cases hcolumn
    · rw [Conclusion.column, hresult] at hcolumn
      rcases r with - | r <;> cases hcolumn
  rw [World.run_append, World.run_concat]
  refine List.IsSuffix.trans ?_ (World.run_wrote b _ later).suffix
  rw [hcache, Sweep.resume, hfound, hname, hstage, hr]
  dsimp only
  rw [hsettled, ← hjournal]
  rcases sweep.rest with - | ⟨m, rest⟩
  · exact List.suffix_rfl
  · exact List.suffix_cons _ _

theorem Conclusion.countP_takesOut_eq_iff (log : List Conclusion) :
    log.countP (·.column = .removed) = log.countP (·.TakesOut) ↔
      ∀ k ∈ log, k.column = .removed → k.TakesOut := by
  induction log with
  | nil => simp
  | cons k log ih =>
    have hle : log.countP (·.TakesOut) ≤ log.countP (·.column = .removed) :=
      List.countP_mono_left fun k _ htakes ↦ decide_eq_true (of_decide_eq_true htakes).1
    rw [List.countP_cons, List.countP_cons, List.forall_mem_cons, ← ih]
    by_cases htakes : k.TakesOut
    · simp [htakes, htakes.1]
    · by_cases hcolumn : k.column = .removed
      · simp only [hcolumn, htakes, decide_true, decide_false, if_true, Bool.false_eq_true,
          if_false, forall_true_left, false_and, iff_false]
        omega
      · simp [hcolumn, htakes]

/-- What the tally `t` says that the sweep `id` over the stores `names` has returned, where `log` is
the log of its conclusions in the run of `events` from `v`. -/
structure Tally.Means (t : Tally) (b : Behaviour) (v : World) (id : CallId) (names : List String)
    (events : List Event) (log : List Conclusion) : Prop where
  /-- The sweep has come to one conclusion about each store. -/
  names_eq : log.map Conclusion.name = names
  mem_log : ∀ k, Concluded b v id events k ↔ k ∈ log
  /-- Each store counts in the column of its conclusion. -/
  get_eq : ∀ column, t.get column = log.countP (·.column = column)
  total_eq : t.total = names.length
  /-- The number of stores removed is that of the records taken out, if each was still there. -/
  removed_eq_iff : t.removed = log.countP (·.TakesOut) ↔
    ∀ k ∈ log, k.column = .removed → k.TakesOut
  takesOut : ∀ k ∈ log, k.TakesOut → ∃ s new,
    new ++ k.left.journal <:+ (v.run b events).cache.journal ∧ k.left.LeavesOnce k.name s new
  /-- A usable answer to a cache in use decides the column. -/
  sorted : ∀ k ∈ log, k.source.refusal? k.name k.stage = none → k.found.phase = .started →
    k.Sorted
  /-- A store that is found gone when its record comes counts as skipped. -/
  skipped : ∀ n p, GoneAt b v id n events (.record p) →
    ∃ k ∈ log, k.name = n ∧ k.column = .skipped
  /-- A store that is found gone when its schemas come counts as removed, and is not taken out. -/
  late : ∀ n s, GoneAt b v id n events (.schemas s) →
    ∃ k ∈ log, k.name = n ∧ k.column = .removed ∧ ¬ k.TakesOut

/-- The tally of a complete log means what it says. -/
theorem Tally.means_of {log : List Conclusion} (hnames : log.map Conclusion.name = names)
    (hlog : ∀ k, Concluded b v id events k ↔ k ∈ log) (hnamed : v.cache.Named)
    (hnodup : v.cache.roster.Nodup) : (Tally.of log).Means b v id names events log where
  names_eq := hnames
  mem_log := hlog
  get_eq := Tally.get_of log
  total_eq := by rw [Tally.total_of, ← hnames, List.length_map]
  removed_eq_iff := by
    rw [← Conclusion.countP_takesOut_eq_iff, ← Tally.get_of]
    rfl
  takesOut k hk htakes := by
    obtain ⟨s, hs⟩ := Option.ne_none_iff_exists'.1 htakes.2
    exact ⟨s, ((hlog k).2 hk).takesOut hnamed hnodup htakes.1 hs⟩
  sorted k hk := ((hlog k).2 hk).sorted
  skipped n p hgone := by
    obtain ⟨k, hk, hname, hstage, hnone, hsorted⟩ := hgone.concluded (by simp)
    exact ⟨k, (hlog k).1 hk, hname, hsorted.skipped.2 ⟨⟨p, hstage⟩, hnone⟩⟩
  late n s hgone := by
    obtain ⟨k, hk, hname, hstage, hnone, hsorted⟩ := hgone.concluded (by simp)
    have hcolumn : k.column = .removed := hsorted.removed.2 (Or.inr ⟨⟨s, hstage⟩, hnone⟩)
    exact ⟨k, (hlog k).1 hk, hname, hcolumn,
      fun htakes ↦ htakes.2 (hsorted.left_of_removed hcolumn)⟩

/-- **What the tally of a sweep means**, whatever happens while it waits. A sweep that is not given
up returns once it has got three answers for each store, and it returns a tally. It has come to one
conclusion about each store that was subscribed when it began, and the tally counts these
conclusions by column. The number of stores removed is the number of those the sweep itself has
taken out, each once and with one event for every listener, **exactly if every store that counts as
removed still had its record when its refresh ended**. If the last answer about a store is usable
and finds the cache in use, it is known in which column the store counts: one that is found gone
when the record comes counts as skipped, and **one that is found gone when the schemas come counts
as removed**, though the sweep has nothing to take out. -/
theorem tally_of_sweep (b : Behaviour) (tracks : Bool) (clock : Nat) (before : List Event)
    {id : CallId} (order : List String) (events : List Event)
    (hnew : ((World.new tracks clock).run b before).knows id = false)
    (hphase : ((World.new tracks clock).run b before).cache.phase = .started) :
    let w := (World.new tracks clock).run b before
    let v := w.step b (.call id (.sweep order))
    let names := World.visiting order w.cache
    (names.Nodup ∧ ∀ n, n ∈ names ↔ w.cache.stores.get? n ≠ none) ∧
    (.abandon id ∉ events → 3 * names.length ≤ answersTo id events →
      (v.run b events).outcomes.lookup id ≠ none) ∧
    ∀ o, (v.run b events).outcomes.lookup id = some o → ∃ (t : Tally) (log : List Conclusion),
      o = .ok (.tally t) ∧ t.Means b v id names events log := by
  intro w v names
  obtain ⟨hstart, hknows⟩ := interleaved_nil (b := b) order hnew hphase
  have hbegins : v.cache = ((World.new tracks clock).run b
      (before ++ [.call id (.sweep order)])).cache := by
    rw [World.run_concat]
  have hnamed : v.cache.Named := hbegins ▸ named_of_run b tracks clock _
  have hnodup : v.cache.roster.Nodup := hbegins ▸ nodup_roster_of_run b tracks clock _
  have hsweep : Interleaved b v id names events := hstart.run hknows
  refine ⟨⟨Cache.nodup_visiting order w.cache, fun n ↦ Cache.mem_visiting_iff⟩, hsweep.returned,
    fun o ho ↦ ?_⟩
  obtain ⟨log, htally, hnames, hlog⟩ := hsweep.log_of_outcome ho
  exact ⟨.of log, log, htally, Tally.means_of hnames hlog hnamed hnodup⟩

end Sweeps

/-- A sweep has got the placement and the record of the store `orders` when the store is
unsubscribed, and then it gets the schemas. -/
def lateUnsubscription : List Event :=
  let source := Source.constant (.new "orders" "east") (.new "orders")
  [.answer 3 source, .answer 3 source, .call 4 (.unsubscribe "orders"), .answer 3 source]

/-- The sweep has come to one conclusion, and it counts the store as removed. -/
theorem tally_lateUnsubscription :
    ((World.new false 0).run .silent ordersSubscribed).knows 3 = false ∧
    ((World.new false 0).run .silent ordersSubscribed).cache.phase = .started ∧
    ∃ log : List Conclusion, log.map Conclusion.name = ["orders"] ∧
      log.countP (·.column = .removed) = 1 := by
  have hnew : ((World.new false 0).run .silent ordersSubscribed).knows 3 = false := by decide
  have hphase : ((World.new false 0).run .silent ordersSubscribed).cache.phase = .started := by
    decide
  have houtcome : (((((World.new false 0).run .silent ordersSubscribed).step .silent
      (.call 3 (.sweep []))).run .silent lateUnsubscription).outcomes.lookup 3) =
        some (.ok (.tally ⟨0, 0, 1, 0⟩)) := by
    decide
  have hnames : World.visiting [] ((World.new false 0).run .silent ordersSubscribed).cache =
      ["orders"] := by
    decide
  have hsweep := tally_of_sweep .silent false 0 ordersSubscribed [] lateUnsubscription hnew hphase
  obtain ⟨t, log, ht, hmeans⟩ := hsweep.2.2 _ houtcome
  obtain rfl : (⟨0, 0, 1, 0⟩ : Tally) = t := Answer.tally.inj (Except.ok.inj ht)
  exact ⟨hnew, hphase, log, hmeans.names_eq.trans hnames, (hmeans.get_eq .removed).symm⟩

/-- Somebody has unsubscribed the store while its refresh was in flight, all answers are usable, and
the sweep counts the store as removed, though it has removed nothing, and not as skipped. -/
theorem not_skipped_lateUnsubscription :
    (∀ stage, (Source.constant (.new "orders" "east") (.new "orders")).refusal? "orders" stage =
      none) ∧
    World.visiting [] ((World.new false 0).run .silent ordersSubscribed).cache = ["orders"] ∧
    (((((World.new false 0).run .silent ordersSubscribed).step .silent
      (.call 3 (.sweep []))).run .silent (lateUnsubscription.take 3)).cache.stores.get? "orders") =
        none ∧
    ∃ t, (((((World.new false 0).run .silent ordersSubscribed).step .silent
      (.call 3 (.sweep []))).run .silent lateUnsubscription).outcomes.lookup 3) =
        some (.ok (.tally t)) ∧ t.skipped ≠ 1 ∧ t.removed ≠ 0 := by
  refine ⟨fun stage ↦ ?_, by decide, by decide, ⟨0, 0, 1, 0⟩, by decide, by decide, by decide⟩
  cases stage with
  | placement => rfl
  | record p => rfl
  | schemas s => rfl

end StoreCache
