import StoreCache.Proofs.Refusal
import StoreCache.Proofs.Subscribe
import StoreCache.Proofs.Sweeping

/-!
# Refreshing one store and sweeping all

A store can be refreshed by a call of its own or by a sweep. **The two ask the same questions, end
in the same way and leave the store alike, with one exception**: a store found gone is removed by
the sweep and stays as it is after the call, which only reports that there is no such store
(`agreement_of_refresh_and_sweep`). The sweep counts the store by what the call returns.

So a caller who is told that a store is gone still finds it subscribed, until a sweep comes by.
-/

namespace StoreCache

variable {b : Behaviour} {w : World} {id : CallId} {n : String} {events : List Event}

/-! ### A refresh from the call on -/

theorem World.step_refresh (hnew : w.knows id = false) (hphase : w.cache.phase = .started) :
    w.step b (.call id (.refresh n)) =
      (w.withCache (Refresh.start n w.cache)).wait id (.refresh n .placement true) := by
  simp only [World.step, hnew, Bool.false_eq_true, if_false, World.call, World.beginRefresh, hphase,
    Phase.usable]

/-- Making the call touches nothing. -/
theorem World.standing_step_refresh (hnew : w.knows id = false)
    (hphase : w.cache.phase = .started) (m : String) :
    (w.step b (.call id (.refresh n))).cache.standing m = w.cache.standing m := by
  rw [step_refresh hnew hphase]
  exact Cache.standing_note rfl m

theorem refreshing_nil (hnew : w.knows id = false) (hphase : w.cache.phase = .started) :
    Refreshing b (w.step b (.call id (.refresh n))) id n true [] := by
  have htask : ((w.step b (.call id (.refresh n))).run b []).task? id =
      some (.refresh n .placement true) := by
    rw [World.run_nil, World.step_refresh hnew hphase]
    exact (World.task?_wait _ id _ id).trans (if_pos rfl)
  exact .under htask .placement (fun _ _ ↦ not_ended_nil) (Nat.zero_le _)

/-- **A refresh from one source**, left alone until it has got enough answers, has returned what
they mean, and the store stands as they mean. -/
theorem refresh_of_source {source : Source} (hcalm : w.cache.Calm b) (hnew : w.knows id = false)
    (halone : AloneWith source id events) (hlong : 3 ≤ answersIn events) (n : String) :
    ∃ time,
      ((w.step b (.call id (.refresh n))).run b events).outcomes.lookup id =
        some (((source.about n).verdict n).map .record) ∧
      ((w.step b (.call id (.refresh n))).run b events).cache.standing n =
        (w.cache.standing n).refreshed n (source.about n) time ∧
      ∀ result time', Ended b (w.step b (.call id (.refresh n))) id n events result time' ↔
        result = ((source.about n).verdict n).map some ∧ time' = time := by
  have hcalm' : (w.run b [.call id (.refresh n)]).cache.Calm b := hcalm.run (by
    show (w.step b (.call id (.refresh n))).cache.phase = .started
    rw [World.step_refresh hnew hcalm.phase]
    exact hcalm.phase)
  have hstart := refreshing_nil (b := b) (n := n) hnew hcalm.phase
  have hrefreshing := (hstart.run hcalm' halone.alone).1
  rcases hrefreshing with @⟨stage, -, -, -, hcount⟩ | @⟨a, time, -, ho, hgiven, hended, hstanding⟩
  · have hrank := stage.rank_le
    omega
  · have hfrom : ∀ stage s,
        Answered b (w.step b (.call id (.refresh n))) id n events stage s → s = source :=
      fun _ _ h ↦ h.source_eq halone
    refine ⟨time, ?_, ?_, fun result time' ↦ ?_⟩
    · rw [ho, hgiven.verdict_eq hfrom]
      rcases (source.about n).verdict n with err | s <;> rfl
    · rw [hstanding, hgiven.refreshed_eq hfrom, World.standing_step_refresh hnew hcalm.phase]
    · rw [hended, hgiven.verdict_eq hfrom]

/-! ### The two compared -/

theorem Answers.delivered_error {a : Answers} {n : String} {e : CacheError}
    (h : a.delivered n = .error e) : e.isNoSuchStore = true ∨ e.isPassing = true := by
  unfold delivered at h
  split at h
  · obtain rfl := Except.error.inj h
    exact CacheError.ofFetch_cases n _
  · obtain rfl := Except.error.inj h
    exact Or.inl rfl
  · split at h
    · obtain rfl := Except.error.inj h
      exact Or.inl rfl
    · split at h
      · obtain rfl := Except.error.inj h
        exact CacheError.ofFetch_cases n _
      · split at h
        · cases h
        · obtain rfl := Except.error.inj h
          exact Or.inr rfl

/-- A refresh is refused only because there is no such store or because a fetch failed. -/
theorem Answers.verdict_error {a : Answers} {n : String} {e : CacheError}
    (h : a.verdict n = .error e) : e.isNoSuchStore = true ∨ e.isPassing = true := by
  rcases hdelivered : a.delivered n with err | ⟨p, s⟩
  · simp only [verdict, hdelivered] at h
    obtain rfl := Except.error.inj h
    exact delivered_error hdelivered
  · rcases hschemas : a.schemas with err | d
    · simp only [verdict, hdelivered, hschemas] at h
      obtain rfl := Except.error.inj h
      exact CacheError.ofFetch_cases n err
    · simp only [verdict, hdelivered, hschemas] at h
      cases h

namespace Tally

/-- **In which column a store has been counted**, by what a refresh of it returns: the tally is that
of the other stores with one more there. -/
def CountsAs (result : Except CacheError Store) (others t : Tally) : Prop :=
  (∃ s, result = .ok s) ∧ t = { others with refreshed := others.refreshed + 1 } ∨
  (∃ e, result = .error e ∧ e.isPassing = true) ∧ t = { others with failed := others.failed + 1 } ∨
  (∃ e, result = .error e ∧ e.isNoSuchStore = true) ∧
    t = { others with removed := others.removed + 1 }

theorem countsAs_count (t : Tally) (a : Answers) (n : String) :
    CountsAs (a.verdict n) t (t.count ((a.verdict n).map some)) := by
  rcases hverdict : a.verdict n with e | s
  · rcases Answers.verdict_error hverdict with hgone | hpassing
    · exact Or.inr (Or.inr ⟨⟨e, rfl, hgone⟩, if_pos hgone⟩)
    · have hfound : ¬ e.isNoSuchStore = true := by
        rw [CacheError.not_isNoSuchStore hpassing]
        exact Bool.false_ne_true
      exact Or.inr (Or.inl ⟨⟨e, rfl, hpassing⟩, if_neg hfound⟩)
  · exact Or.inl ⟨⟨s, rfl⟩, rfl⟩

/-- A sweep counts each of its stores once, whenever it comes to it. -/
theorem countsAs_under (answers : String → Answers) {names : List String} (hn : n ∈ names) :
    CountsAs ((answers n).verdict n) (.under answers (names.erase n)) (.under answers names) := by
  have hlast : names.Perm (names.erase n ++ [n]) :=
    (List.perm_cons_erase hn).trans (List.perm_append_singleton n _).symm
  rw [under_perm hlast, under_concat]
  exact countsAs_count _ (answers n) n

end Tally

theorem Answers.sayGone_iff {a : Answers} {n : String} :
    a.sayGone n = true ↔ ∃ e, a.verdict n = .error e ∧ e.isNoSuchStore = true := by
  unfold sayGone
  rcases a.verdict n with e | s
  · simp
  · simp

/-- A refresh never takes a record away. -/
theorem Shelf.store_refreshed {sh : Shelf} (h : sh.store ≠ none) (n : String) (a : Answers) :
    (sh.refreshed n a).store ≠ none := by
  unfold refreshed
  split
  · exact h
  · exact Option.some_ne_none _
  · exact Option.some_ne_none _

theorem Standing.gone_congr {k k' : Standing} (hshelf : k.shelf = k'.shelf)
    (hnews : k.news = k'.news) : k.gone = k'.gone := by
  rw [gone, gone, hshelf, hnews]

/-- **The explicit refresh and the sweep agree up to removal.** Take a subscribed store in any world
a run leads to, with listeners that are passive from then on, and one source of answers. Let the
store be refreshed by a call of its own, or all stores be swept, and let nothing else happen until
there have been answers enough.

Both have returned, and the refresh of the store has ended in the same way in both. The call returns
that. The sweep returns the tally of what the answers mean for each store it visits, and has counted
this one as refreshed, failed or removed as the call returns a record, a failure that may pass, or
that there is no such store. If the store is not found gone, the two leave the same of it and the
same events have been sent about it, and if the clock reads the same they date the refresh the same.
If it is found gone, the sweep has removed what the call leaves subscribed. -/
theorem agreement_of_refresh_and_sweep (b : Behaviour) (tracks : Bool) (clock : Nat)
    (before : List Event) (source : Source) (id : CallId) (n : String) (order : List String)
    (after₁ after₂ : List Event)
    (hb : b.Passive ((World.new tracks clock).run b before).cache.journal)
    (hnew : ((World.new tracks clock).run b before).knows id = false)
    (hphase : ((World.new tracks clock).run b before).cache.phase = .started)
    (hn : ((World.new tracks clock).run b before).cache.stores.get? n ≠ none)
    (halone₁ : AloneWith source id after₁) (halone₂ : AloneWith source id after₂)
    (hlong₁ : 3 ≤ answersIn after₁)
    (hlong₂ : 3 * ((World.new tracks clock).run b before).cache.stores.size ≤ answersIn after₂) :
    let w := (World.new tracks clock).run b before
    let v₁ := w.step b (.call id (.refresh n))
    let v₂ := w.step b (.call id (.sweep order))
    let u₁ := v₁.run b after₁
    let u₂ := v₂.run b after₂
    let names := World.visiting order w.cache
    ∃ (result : Except CacheError Store) (t : Tally) (time₁ time₂ : Option Nat),
      u₁.outcomes.lookup id = some (result.map .record) ∧
      u₂.outcomes.lookup id = some (.ok (.tally t)) ∧
      (∀ r time, Ended b v₁ id n after₁ r time ↔ r = result.map some ∧ time = time₁) ∧
      (∀ r time, Ended b v₂ id n after₂ r time ↔ r = result.map some ∧ time = time₂) ∧
      t = .under source.about names ∧
      Tally.CountsAs result (.under source.about (names.erase n)) t ∧
      u₁.cache.stores.get? n ≠ none ∧
      ((∀ e, result = .error e → e.isNoSuchStore = false) →
        u₂.cache.shelf n = u₁.cache.shelf n ∧
        newsOf n u₂.cache.journal = newsOf n u₁.cache.journal ∧
        (time₁ = time₂ → u₂.cache.standing n = u₁.cache.standing n)) ∧
      ((∃ e, result = .error e ∧ e.isNoSuchStore = true) →
        u₂.cache.standing n = (u₁.cache.standing n).gone) := by
  intro w v₁ v₂ u₁ u₂ names
  have hcalm : w.cache.Calm b := calm_of_run hb hphase
  obtain ⟨time₁, ho₁, hstanding₁, hended₁⟩ := refresh_of_source hcalm hnew halone₁ hlong₁ n
  obtain ⟨ho₂, hvisited, -⟩ := sweep_of_source order hcalm hnew halone₂ hlong₂
  obtain ⟨time₂, hstanding₂, hended₂⟩ := hvisited n hn
  have hshelf₁ : u₁.cache.shelf n = (w.cache.shelf n).refreshed n (source.about n) :=
    (congrArg Standing.shelf hstanding₁).trans (Standing.shelf_refreshed _ n _ time₁)
  have hnews₁ : newsOf n u₁.cache.journal =
      ((w.cache.standing n).refreshed n (source.about n) time₁).news :=
    congrArg Standing.news hstanding₁
  refine ⟨(source.about n).verdict n, _, time₁, time₂, ho₁, ho₂, hended₁, hended₂, rfl,
    Tally.countsAs_under source.about (Cache.mem_visiting_iff.2 hn), ?_, fun hstays ↦ ?_,
    fun hgone ↦ ?_⟩
  · rw [show u₁.cache.stores.get? n = _ from congrArg Shelf.store hshelf₁]
    exact Shelf.store_refreshed hn n (source.about n)
  · have hfound : (source.about n).sayGone n = false := by
      rw [Bool.eq_false_iff, ne_eq, Answers.sayGone_iff]
      rintro ⟨e, he, hgone⟩
      rw [hstays e he] at hgone
      cases hgone
    rw [Standing.swept, hfound, if_neg Bool.false_ne_true] at hstanding₂
    refine ⟨?_, ?_, fun htime ↦ ?_⟩
    · refine (congrArg Standing.shelf hstanding₂).trans (Eq.trans ?_ hshelf₁.symm)
      exact Standing.shelf_refreshed _ n _ time₂
    · refine (congrArg Standing.news hstanding₂).trans (Eq.trans ?_ hnews₁.symm)
      exact Standing.news_refreshed _ n _ time₂ time₁
    · exact hstanding₂.trans (htime ▸ hstanding₁.symm)
  · have hgone' : (source.about n).sayGone n = true := Answers.sayGone_iff.2 hgone
    rw [Standing.swept, hgone', if_pos rfl] at hstanding₂
    refine hstanding₂.trans (Standing.gone_congr ?_ ?_)
    · exact (Standing.shelf_refreshed _ n _ time₂).trans hshelf₁.symm
    · exact (Standing.news_refreshed _ n _ time₂ time₁).trans hnews₁.symm

/-- A started cache with one store. -/
def World.withOrders : World := (World.new true 0).run .silent ordersSubscribed

/-- A source that has the store on another cluster, with another record. -/
def Source.moved : Source :=
  .constant (.new "orders" "west") { Store.new "orders" with readQuota := 9 }

/-- A source that knows no store. -/
def Source.barren : Source := { Source.moved with placement := fun _ ↦ .ok none }

/-- A store that has moved is refreshed alike by a call of its own and by a sweep, which counts
it. -/
theorem shelf_of_moved :
    let u₁ := (World.withOrders.step .silent (.call 3 (.refresh "orders"))).run .silent
      (List.replicate 3 (.answer 3 .moved))
    let u₂ := (World.withOrders.step .silent (.call 3 (.sweep []))).run .silent
      (List.replicate 3 (.answer 3 .moved))
    u₁.outcomes.lookup 3 = some (.ok (.record { Store.new "orders" with readQuota := 9 })) ∧
      u₂.outcomes.lookup 3 = some (.ok (.tally ⟨1, 0, 0, 0⟩)) ∧
      u₂.cache.shelf "orders" = u₁.cache.shelf "orders" := by
  have halone : AloneWith .moved 3 (List.replicate 3 (.answer 3 .moved)) :=
    fun _ he ↦ Or.inl (List.eq_of_mem_replicate he)
  have houtcome : ((World.withOrders.step .silent (.call 3 (.refresh "orders"))).run .silent
      (List.replicate 3 (.answer 3 .moved))).outcomes.lookup 3 =
        some (.ok (.record { Store.new "orders" with readQuota := 9 })) := by
    decide
  obtain ⟨result, t, time₁, time₂, ho, ho₂, -, -, ht, -, -, hsame, -⟩ :=
    agreement_of_refresh_and_sweep .silent true 0 ordersSubscribed .moved 3 "orders" [] _ _
      (passive_silent _) (by decide) (by decide) (by decide) halone halone (by decide) (by decide)
  have hcounted : Tally.under Source.moved.about (World.visiting [] World.withOrders.cache) =
      ⟨1, 0, 0, 0⟩ := by
    decide
  obtain rfl : t = ⟨1, 0, 0, 0⟩ := ht.trans hcounted
  have hfound : ∀ e, result = .error e → e.isNoSuchStore = false := by
    rintro e rfl
    have herror := ho.symm.trans houtcome
    cases herror
  exact ⟨houtcome, ho₂, (hsame hfound).1⟩

/-- **A refresh by a call of its own does not remove a store found gone**, and a sweep does. -/
theorem not_agreement_of_refresh_and_sweep :
    ¬ ∀ (b : Behaviour) (tracks : Bool) (clock : Nat) (before : List Event) (source : Source)
      (id : CallId) (n : String) (order : List String) (after₁ after₂ : List Event),
      let w := (World.new tracks clock).run b before
      let u₁ := (w.step b (.call id (.refresh n))).run b after₁
      let u₂ := (w.step b (.call id (.sweep order))).run b after₂
      b.Passive w.cache.journal → w.knows id = false → w.cache.phase = .started →
      w.cache.stores.get? n ≠ none → (∀ e ∈ after₁, e = .answer id source) →
      (∀ e ∈ after₂, e = .answer id source) → 3 ≤ answersIn after₁ →
      3 * w.cache.stores.size ≤ answersIn after₂ →
        u₁.cache.stores.contains n = u₂.cache.stores.contains n := by
  intro h
  have hclaimed := h .silent true 0 ordersSubscribed .barren 3 "orders" []
    (List.replicate 3 (.answer 3 .barren)) (List.replicate 3 (.answer 3 .barren)) (passive_silent _)
    (by decide) (by decide) (by decide) (fun _ ↦ List.eq_of_mem_replicate)
    (fun _ ↦ List.eq_of_mem_replicate) (by decide) (by decide)
  revert hclaimed
  decide

end StoreCache
