import StoreCache.Proofs.Subscribe
import StoreCache.Proofs.Sweeping

/-!
# Sweeps and the order of stores

The order in which a sweep visits the stores is anybody's choice, and a store may be refreshed,
fail, or be removed while others are still to come. None of it matters: **what a sweep makes of a
store is a function of how the store stood and of what is answered about it** (`sweep_of_source`),
and the tally, which alone speaks of all stores, counts the same in every order
(`Tally.under_perm`).

Of the events this is said store by store. In which order listeners hear of different stores does
depend on the order of the sweep.
-/

namespace StoreCache

variable {b : Behaviour} {w : World} {id : CallId} {n : String} {events : List Event}

/-! ### What listeners are told about one store -/

/-- What a listener registered throughout is told about a store in a run is the news of it. -/
theorem told_about {new : List Entry} {l : ListenerId} (events : List Event)
    (hb : b.Passive w.cache.journal) (hnodup : w.cache.roster.Nodup) (hl : l ∈ w.cache.roster)
    (hnew : (w.run b events).cache.journal = new ++ w.cache.journal)
    (hstays : .unregistered l ∉ new) (n : String) :
    (told l new).filter (·.2.name = n) = newsOf n new := by
  obtain ⟨new', hjournal, -, hheard⟩ := run_heard hb events
  obtain rfl : new' = new := List.append_cancel_right (hjournal.symm.trans hnew)
  rw [hheard hnodup l hl hstays, newsOf]

/-! ### Stores one by one -/

section OneSource

variable {source : Source} (order : List String) (hcalm : w.cache.Calm b)
  (hnew : w.knows id = false) (halone : AloneWith source id events)
  (hlong : 3 * w.cache.stores.size ≤ answersIn events)

include hcalm hnew halone hlong

/-- **What a sweep leaves of a store** is a function of what there was of it and of what is answered
about it. -/
theorem shelf_of_sweep (n : String) :
    ((w.step b (.call id (.sweep order))).run b events).cache.shelf n =
      (w.cache.shelf n).swept n (source.about n) := by
  obtain ⟨-, hvisited, hothers⟩ := sweep_of_source order hcalm hnew halone hlong
  by_cases hn : w.cache.stores.get? n = none
  · have hstore : (w.cache.shelf n).store = none := hn
    rw [Shelf.swept, hstore]
    exact congrArg Standing.shelf (hothers n hn)
  · obtain ⟨time, hstanding, -⟩ := hvisited n hn
    exact (congrArg Standing.shelf hstanding).trans (Standing.shelf_swept hn n _ time)

/-- The news of a store likewise. -/
theorem newsOf_sweep (n : String) :
    newsOf n ((w.step b (.call id (.sweep order))).run b events).cache.journal =
      if w.cache.stores.get? n = none then newsOf n w.cache.journal
      else ((w.cache.standing n).swept n (source.about n) none).news := by
  obtain ⟨-, hvisited, hothers⟩ := sweep_of_source order hcalm hnew halone hlong
  split
  · rename_i hn
    exact congrArg Standing.news (hothers n hn)
  · rename_i hn
    obtain ⟨time, hstanding, -⟩ := hvisited n hn
    exact (congrArg Standing.news hstanding).trans (Standing.news_swept _ n _ time none)

end OneSource

/-! ### The theorem -/

/-- **Sweeps are isolated and indifferent to order.** Let a cache be swept in any world a run leads
to, with listeners that are passive from then on; let every question be answered by one source, and
let nothing else happen until there have been answers enough.

Then the sweep has returned. Whatever the order of the stores was, it returns the same tally and
leaves the same records, placements and schema sets, the same events have been sent about each
store, and every listener registered throughout has been told of them in the same order. What is
left of a store is a function of what there was of it and of what is answered about it. -/
theorem isolation_of_sweeps (b : Behaviour) (tracks : Bool) (clock : Nat) (before : List Event)
    (source : Source) (id : CallId) (order₁ order₂ : List String) (after₁ after₂ : List Event)
    (hb : b.Passive ((World.new tracks clock).run b before).cache.journal)
    (hnew : ((World.new tracks clock).run b before).knows id = false)
    (hphase : ((World.new tracks clock).run b before).cache.phase = .started)
    (halone₁ : AloneWith source id after₁) (halone₂ : AloneWith source id after₂)
    (hlong₁ : 3 * ((World.new tracks clock).run b before).cache.stores.size ≤ answersIn after₁)
    (hlong₂ : 3 * ((World.new tracks clock).run b before).cache.stores.size ≤ answersIn after₂) :
    let w := (World.new tracks clock).run b before
    let u₁ := (w.step b (.call id (.sweep order₁))).run b after₁
    let u₂ := (w.step b (.call id (.sweep order₂))).run b after₂
    (∃ t, u₁.outcomes.lookup id = some (.ok (.tally t)) ∧
      u₂.outcomes.lookup id = some (.ok (.tally t))) ∧
    u₁.cache.stores = u₂.cache.stores ∧ u₁.cache.placements = u₂.cache.placements ∧
    u₁.cache.schemas = u₂.cache.schemas ∧
    (∀ n, newsOf n u₁.cache.journal = newsOf n u₂.cache.journal) ∧
    (∀ l ∈ w.cache.roster, ∀ new₁ new₂, u₁.cache.journal = new₁ ++ w.cache.journal →
      u₂.cache.journal = new₂ ++ w.cache.journal → .unregistered l ∉ new₁ →
      .unregistered l ∉ new₂ → ∀ n,
        (told l new₁).filter (·.2.name = n) = (told l new₂).filter (·.2.name = n)) ∧
    ∀ n, u₁.cache.shelf n = (w.cache.shelf n).swept n (source.about n) := by
  intro w u₁ u₂
  have hcalm : w.cache.Calm b := calm_of_run hb hphase
  have hshelf₁ := shelf_of_sweep order₁ hcalm hnew halone₁ hlong₁
  have hshelf₂ := shelf_of_sweep order₂ hcalm hnew halone₂ hlong₂
  have hshelf : ∀ n, u₁.cache.shelf n = u₂.cache.shelf n := fun n ↦
    (hshelf₁ n).trans (hshelf₂ n).symm
  have hnews : ∀ n, newsOf n u₁.cache.journal = newsOf n u₂.cache.journal := fun n ↦
    (newsOf_sweep order₁ hcalm hnew halone₁ hlong₁ n).trans
      (newsOf_sweep order₂ hcalm hnew halone₂ hlong₂ n).symm
  refine ⟨⟨_, (sweep_of_source order₁ hcalm hnew halone₁ hlong₁).1, ?_⟩,
    Dict.ext_get? fun n ↦ congrArg Shelf.store (hshelf n),
    Dict.ext_get? fun n ↦ congrArg Shelf.placement (hshelf n),
    Dict.ext_get? fun n ↦ congrArg Shelf.schemas (hshelf n), hnews, ?_, hshelf₁⟩
  · -- The two orders are of the same stores.
    rw [(sweep_of_source order₂ hcalm hnew halone₂ hlong₂).1, Tally.under_perm
      ((Cache.visiting_perm order₂ w.cache).trans (Cache.visiting_perm order₁ w.cache).symm)]
  · intro l hl new₁ new₂ hjournal₁ hjournal₂ hstays₁ hstays₂ n
    have hnodup : w.cache.roster.Nodup := nodup_roster_of_run b tracks clock before
    have htold₁ : (told l new₁).filter (·.2.name = n) = newsOf n new₁ :=
      told_about (.call id (.sweep order₁) :: after₁) hb hnodup hl hjournal₁ hstays₁ n
    have htold₂ : (told l new₂).filter (·.2.name = n) = newsOf n new₂ :=
      told_about (.call id (.sweep order₂) :: after₂) hb hnodup hl hjournal₂ hstays₂ n
    have hsame := hnews n
    rw [hjournal₁, hjournal₂, newsOf_append, newsOf_append] at hsame
    rw [htold₁, htold₂, List.append_cancel_right hsame]

/-- A source that knows nothing of a store, and of every other what another source knows. -/
def Source.without (source : Source) (name : String) : Source :=
  { source with placement := fun n ↦ if n = name then .ok none else source.placement n }

/-- A cache is started with a listener, and two stores are subscribed. -/
def twoSubscriptions : List Event :=
  ordersSubscribed ++
    .call 3 (.subscribe "users") ::
      List.replicate 3 (.answer 3 (.constant (.new "users" "west") (.new "users")))

/-- A source that has lost a store and has another record of the other. -/
def Source.lossy : Source :=
  (Source.constant (.new "users" "west") { Store.new "users" with readQuota := 9 }).without "orders"

/-- The sweep of two stores, in the order given, by the answers of one source. -/
def lossySweep (order : List String) : World :=
  (((World.new true 0).run .silent twoSubscriptions).step .silent (.call 4 (.sweep order))).run
    .silent (List.replicate 6 (.answer 4 .lossy))

/-- A sweep that removes one store and refreshes another does so in either order. -/
theorem stores_of_lossySweep :
    (lossySweep ["orders", "users"]).outcomes.lookup 4 = some (.ok (.tally ⟨1, 0, 1, 0⟩)) ∧
      (lossySweep ["users", "orders"]).outcomes.lookup 4 = some (.ok (.tally ⟨1, 0, 1, 0⟩)) ∧
      (lossySweep ["orders", "users"]).cache.stores =
        (lossySweep ["users", "orders"]).cache.stores ∧
      (lossySweep ["orders", "users"]).cache.shelf "orders" = .bare := by
  have halone : AloneWith .lossy 4 (List.replicate 6 (.answer 4 .lossy)) :=
    fun e he ↦ Or.inl (List.eq_of_mem_replicate he)
  obtain ⟨⟨t, htally₁, htally₂⟩, hstores, -⟩ := isolation_of_sweeps .silent true 0 twoSubscriptions
    .lossy 4 ["orders", "users"] ["users", "orders"] _ _ (passive_silent _) (by decide)
    (by decide) halone halone (by decide) (by decide)
  have htally : (lossySweep ["orders", "users"]).outcomes.lookup 4 =
      some (.ok (.tally ⟨1, 0, 1, 0⟩)) := by decide
  have hgone : (lossySweep ["orders", "users"]).cache.shelf "orders" = .bare := by decide
  exact ⟨htally, htally₂.trans (htally₁.symm.trans htally), hstores, hgone⟩

end StoreCache
