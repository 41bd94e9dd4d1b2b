import StoreCache.Proofs.Subscribe
import StoreCache.Proofs.Sweeping

/-!
# Stores that a sweep fails to refresh

A sweep counts a store as failed if its refresh ends with a refusal that does not say the store is
gone. **Such a store is left as it was if the refresh fails at the placement or at the record, and
with the record and the placement it was told if it fails at the schemas**: those go in before the
schemas are asked for, and the listeners have heard of them by then. It is the order of writes that
lets a failed subscription leave a trace, met once more.

The theorem has both halves, and says what a store that was left as it was means: the same record,
placement, schema set and time of the last refresh, the same contribution to the total quota, and
nobody has been told anything about it.
-/

namespace StoreCache

variable {b : Behaviour} {v w : World} {id : CallId} {n : String} {events : List Event}

/-- The sweep has counted the store `n` as failed. -/
def Failed (b : Behaviour) (v : World) (id : CallId) (events : List Event) (n : String) : Prop :=
  ∃ err time, Ended b v id n events (.error err) time ∧ err.isNoSuchStore = false

/-- What a store contributes to the total read quota. -/
def Cache.contribution (c : Cache) (n : String) : Int := ((c.stores.get? n).map Store.quota).getD 0

theorem Cache.contribution_congr {c d : Cache} (h : d.standing n = c.standing n) :
    d.contribution n = c.contribution n := by
  have hstore : d.stores.get? n = c.stores.get? n := congrArg (fun k ↦ k.shelf.store) h
  rw [contribution, contribution, hstore]

/-- A record that is put in counts for what it says. -/
theorem Cache.contribution_of_put {c : Cache} {k : Standing} {p : Placement} {s : Store}
    (h : c.standing n = k.put p s) : c.contribution n = s.quota := by
  have hstore : c.stores.get? n = some s := congrArg (fun k ↦ k.shelf.store) h
  rw [contribution, hstore]
  rfl

/-- Whether a refresh that gets these answers counts as failed. -/
def Answers.failing (a : Answers) (n : String) : Bool :=
  match a.verdict n with
  | .error e => !e.isNoSuchStore
  | .ok _ => false

theorem Tally.failed_count (t : Tally) (a : Answers) (n : String) :
    (t.count ((a.verdict n).map some)).failed = t.failed + if a.failing n then 1 else 0 := by
  unfold Answers.failing
  rcases a.verdict n with err | s
  · show (if err.isNoSuchStore then _ else _ : Tally).failed = _
    split <;> rename_i hgone <;> simp [hgone]
  · rfl

theorem Tally.failed_under (answers : String → Answers) (names : List String) :
    (Tally.under answers names).failed = (names.filter fun n ↦ (answers n).failing n).length := by
  induction names using List.reverseRecOn with
  | nil => rfl
  | append_singleton names n ih =>
    rw [Tally.under_concat, Tally.failed_count, ih, List.filter_append, List.length_append]
    by_cases hn : (answers n).failing n = true <;> simp [hn]

/-- A store the sweep is through with has been counted as failed if its answers say so. -/
theorem Through.failed_iff {a : Answers} {time : Option Nat} (h : Through b v id events n a time) :
    Failed b v id events n ↔ a.failing n = true := by
  have hended := h.ended
  unfold Failed Answers.failing
  rcases hv : a.verdict n with e | s <;> rw [hv] at hended
  · constructor
    · rintro ⟨err, time', he, hgone⟩
      obtain ⟨hresult, -⟩ := (hended _ _).1 he
      obtain rfl := Except.error.inj hresult
      show (!err.isNoSuchStore) = true
      rw [hgone, Bool.not_false]
    · intro hfailing
      exact ⟨e, time, (hended _ _).2 ⟨rfl, rfl⟩, by simpa using hfailing⟩
  · constructor
    · rintro ⟨err, time', he, -⟩
      obtain ⟨hresult, -⟩ := (hended _ _).1 he
      cases hresult
    · intro hfailing
      cases hfailing

/-- **Nobody is told of a store without news of it**, if the listeners are passive. -/
theorem untold_of_newsOf (events : List Event) (hb : b.Passive w.cache.journal)
    (hnews : newsOf n (w.run b events).cache.journal = newsOf n w.cache.journal) :
    ∃ new, (w.run b events).cache.journal = new ++ w.cache.journal ∧
      ∀ l, ∀ x ∈ told l new, x.2.name ≠ n := by
  obtain ⟨new, hjournal, htold, -⟩ := run_heard hb events
  refine ⟨new, hjournal, fun l x hx hname ↦ ?_⟩
  have hnone : newsOf n new = [] := by
    rw [hjournal, newsOf_append] at hnews
    exact List.append_left_eq_self.1 hnews
  have hmem : x ∈ newsOf n new := List.mem_filter.2 ⟨htold l hx, by simpa using hname⟩
  rw [hnone] at hmem
  cases hmem

/-- How a store stands after a sweep that has failed to refresh it. -/
theorem Standing.swept_of_failing {k : Standing} {a : Answers} (h : a.failing n = true)
    (time : Option Nat) :
    ((∃ e, a.delivered n = .error e) ∧ k.swept n a time = k) ∨
      ∃ p s e, a.delivered n = .ok (p, s) ∧ a.schemas = .error e ∧
        k.swept n a time = k.put p s := by
  have hstays : a.sayGone n = false := by
    unfold Answers.failing at h
    unfold Answers.sayGone
    split at h <;> simp_all
  rw [swept, hstays, if_neg Bool.false_ne_true]
  rcases hdelivered : a.delivered n with err | ⟨p, s⟩
  · exact Or.inl ⟨⟨err, rfl⟩, by simp only [refreshed, hdelivered]⟩
  · rcases hschemas : a.schemas with err | d
    · exact Or.inr ⟨p, s, err, rfl, rfl, by simp only [refreshed, hdelivered, hschemas]⟩
    · have hverdict : a.verdict n = .ok s := by simp only [Answers.verdict, hdelivered, hschemas]
      rw [Answers.failing, hverdict] at h
      cases h

/-- **What a sweep leaves of the stores it counts as failed.** Let a cache be swept in any world a
run leads to, with listeners that are passive from then on, and let nothing else happen, whatever
the answers are.

* The column of failed stores counts the stores whose refresh has ended in a refusal that does not
  say the store is gone.
* If the placement or the record could not be had, such a store stands as it stood and contributes
  to the total quota what it did, and nobody has been told of it.
* If only the schemas could not be had, it stands as it stood with the placement and the record it
  was told put in, and contributes what that record says. -/
theorem standing_of_failed_store (b : Behaviour) (tracks : Bool) (clock : Nat)
    (before : List Event) (id : CallId) (order : List String) (after : List Event)
    (hb : b.Passive ((World.new tracks clock).run b before).cache.journal)
    (hnew : ((World.new tracks clock).run b before).knows id = false)
    (hphase : ((World.new tracks clock).run b before).cache.phase = .started)
    (halone : Alone id after) :
    let w := (World.new tracks clock).run b before
    let v := w.step b (.call id (.sweep order))
    let u := v.run b after
    (∀ t, u.outcomes.lookup id = some (.ok (.tally t)) →
      ∃ failed : List String, failed.Sublist (World.visiting order w.cache) ∧
        t.failed = failed.length ∧ ∀ n, n ∈ failed ↔ Failed b v id after n) ∧
    ∀ n, Failed b v id after n →
      ∃ a : Answers, a.Given (Answered b v id n after) n ∧
        ((∃ e, a.delivered n = .error e) ∧ u.cache.standing n = w.cache.standing n ∧
          u.cache.contribution n = w.cache.contribution n ∧
          (∃ new, u.cache.journal = new ++ w.cache.journal ∧ ∀ l, ∀ x ∈ told l new, x.2.name ≠ n) ∨
        ∃ p s e, a.delivered n = .ok (p, s) ∧ a.schemas = .error e ∧
          u.cache.standing n = (w.cache.standing n).put p s ∧
          u.cache.contribution n = s.quota) := by
  intro w v u
  have hcalm : w.cache.Calm b := calm_of_run hb hphase
  have hsweeping : Sweeping b v id (World.visiting order w.cache) after :=
    sweeping_of_alone hcalm hnew halone
  obtain ⟨hstanding, -⟩ : (∀ n, v.cache.standing n = w.cache.standing n) ∧ _ :=
    World.beside_step_sweep order hnew hphase
  refine ⟨fun t ht ↦ ?_, ?_⟩
  · rcases hsweeping with @⟨s, _, _, _, htask, -⟩ | @⟨answers, time, -, ho, hbehind, -, hunended⟩
    · -- A call that waits has not returned.
      have horderly : u.Orderly := (((World.orderly_new tracks clock).run before).step _).run after
      have hnone := horderly id (by rw [htask]; exact Option.some_ne_none _)
      rw [hnone] at ht
      cases ht
    · rw [ho] at ht
      cases ht
      refine ⟨_, List.filter_sublist, Tally.failed_under answers _, fun n ↦ ?_⟩
      refine ⟨fun h ↦ ?_, fun h ↦ ?_⟩
      · obtain ⟨hn, hfailing⟩ := List.mem_filter.1 h
        exact (hbehind n hn).failed_iff.2 hfailing
      · have hn : n ∈ World.visiting order w.cache := Classical.byContradiction fun hn ↦ by
          obtain ⟨err, time, hended, -⟩ := h
          exact hunended n hn _ _ hended
        exact List.mem_filter.2 ⟨hn, (hbehind n hn).failed_iff.1 h⟩
  · rintro n ⟨err, time, hended, hgone⟩
    obtain ⟨hn, a, hthrough, -⟩ := hsweeping.through hended
    have hfailing : a.failing n = true := hthrough.failed_iff.1 ⟨err, time, hended, hgone⟩
    have hleft : u.cache.standing n = (w.cache.standing n).swept n a time :=
      hthrough.standing.trans (by rw [hstanding])
    refine ⟨a, hthrough.given, ?_⟩
    rcases Standing.swept_of_failing (k := w.cache.standing n) hfailing time with
      ⟨hundelivered, hk⟩ | ⟨p, s, e, hdelivered, hschemas, hk⟩
    · have hsame : u.cache.standing n = w.cache.standing n := hleft.trans hk
      have huntold := untold_of_newsOf (.call id (.sweep order) :: after) hb
        (congrArg Standing.news hsame)
      exact Or.inl ⟨hundelivered, hsame, Cache.contribution_congr hsame, huntold⟩
    · have hput : u.cache.standing n = (w.cache.standing n).put p s := hleft.trans hk
      exact Or.inr ⟨p, s, e, hdelivered, hschemas, hput, Cache.contribution_of_put hput⟩

/-- The sweep of a store gets three answers, a new record and no schemas among them. -/
def lateSweepAnswers : List Event := List.replicate 3 (.answer 3 .late)

theorem failed_lateSweep :
    Failed .silent (((World.new true 0).run .silent ordersSubscribed).step .silent
      (.call 3 (.sweep []))) 3 lateSweepAnswers "orders" :=
  ⟨.fetchFailed "orders" .timeout, some 0,
    ⟨List.replicate 2 (.answer 3 .late), .late, .replace,
      .schemas { Store.new "orders" with readQuota := 7 }, List.prefix_rfl, by decide, rfl,
      by decide⟩, rfl⟩

theorem alone_lateSweepAnswers : Alone 3 lateSweepAnswers :=
  fun _ he ↦ Or.inl ⟨.late, List.eq_of_mem_replicate he⟩

/-- A store counted as failed, because its schemas come too late, has a new record all the same. -/
theorem standing_of_lateSweep :
    let w := (World.new true 0).run .silent ordersSubscribed
    let v := w.step .silent (.call 3 (.sweep []))
    let u := v.run .silent lateSweepAnswers
    Failed .silent v 3 lateSweepAnswers "orders" ∧
      u.cache.standing "orders" ≠ w.cache.standing "orders" ∧
      ∃ p s, u.cache.standing "orders" = (w.cache.standing "orders").put p s ∧
        u.cache.contribution "orders" = s.quota := by
  have hdiffers : ((((World.new true 0).run .silent ordersSubscribed).step .silent
      (.call 3 (.sweep []))).run .silent lateSweepAnswers).cache.standing "orders" ≠
        ((World.new true 0).run .silent ordersSubscribed).cache.standing "orders" := by
    decide
  obtain ⟨-, hleft⟩ := standing_of_failed_store .silent true 0 ordersSubscribed 3 []
    lateSweepAnswers (passive_silent _) (by decide) (by decide) alone_lateSweepAnswers
  obtain ⟨a, -, ⟨-, hsame, -⟩ | ⟨p, s, -, -, -, hput, hquota⟩⟩ := hleft "orders" failed_lateSweep
  · exact absurd hsame hdiffers
  · exact ⟨failed_lateSweep, hdiffers, p, s, hput, hquota⟩

/-- **A store counted as failed may have changed**, even if nothing happens but that the sweep is
answered: it has the record it was told, and its read quota counts. -/
theorem not_untouched_of_failed_store :
    ¬ ∀ (b : Behaviour) (tracks : Bool) (clock : Nat) (before : List Event) (id : CallId)
      (order : List String) (after : List Event),
      let w := (World.new tracks clock).run b before
      let v := w.step b (.call id (.sweep order))
      let u := v.run b after
      b.Passive w.cache.journal → w.knows id = false → w.cache.phase = .started →
      Alone id after → ∀ n, Failed b v id after n →
        u.cache.standing n = w.cache.standing n := by
  intro h
  have hclaimed := h .silent true 0 ordersSubscribed 3 [] lateSweepAnswers (passive_silent _)
    (by decide) (by decide) alone_lateSweepAnswers "orders" failed_lateSweep
  revert hclaimed
  decide

end StoreCache
