import Mathlib.Data.List.Induction
import StoreCache.Proofs.Departure
import StoreCache.Proofs.Flight
import StoreCache.Proofs.Publishing
import StoreCache.Proofs.Shelf

/-!
# Refreshes that are overtaken

Take a store that upstream publishes at every instant: it has a placement, a record and schemas, and
no question about it fails. Its placement may change all the same, and **a refresh asks for the
placement and for the record at two different instants**. If the store is placed on another cluster
in between, then the record is asked for where it is no more, and the refresh ends with the refusal
that there is no such store: it has been overtaken (`Overtaken`).

So a sweep drops a store that exists, and a subscription of one is refused. The theorem says that
nothing else does it: unless somebody unsubscribes the store or clears the cache, the events that
take it away are exactly the answers to overtaken refreshes of sweeps, and no subscription is
refused as if there was no such store before a refresh has been overtaken.
-/

namespace StoreCache

variable {b : Behaviour} {v w : World} {e : Event} {n : String} {id : CallId} {events : List Event}
  {a : Actor}

/-! ### Refreshes -/

/-- **Why a refresh of a published store is refused as if there was no such store**: the store has
been placed elsewhere since the refresh asked, or a callback has unsubscribed it as its record was
installed, or it is not subscribed any more when its schemas come. -/
theorem Refresh.ended_noSuchStore {mode : Cache.Install} {stage : Stage} {source : Source}
    {c d : Cache} {err : CacheError} (hsource : source.Publishes n)
    (h : resume b mode n stage source c = (.ended (.error err), d))
    (herr : err.isNoSuchStore = true) :
    (∃ p q, stage = .record p ∧ source.placement n = .ok (some q) ∧ q.cluster ≠ p.cluster) ∨
    (∃ new, d.journal = new ++ c.journal ∧ UnsubscribedInside n new) ∨
    ∃ s, stage = .schemas s ∧ c.stores.get? n = none := by
  have hresumed := resumed b mode n stage source c
  rw [h] at hresumed
  cases hresumed with
  | refused hrefusal => exact Or.inl (hsource.refusal hrefusal herr)
  | unusable husable =>
    rw [Phase.usable_error husable] at herr
    cases herr
  | lost _ hname hinstall hout =>
    subst hname
    obtain ⟨new, hjournal, hkept⟩ := Cache.kept_of_install hinstall
    exact Or.inr (Or.inl ⟨new, hjournal, hkept.resolve_right fun hin ↦ hin hout⟩)
  | absent hout => exact Or.inr (Or.inr ⟨_, rfl, hout⟩)

/-- A refresh that has been overtaken is refused as if there was no such store. -/
theorem Refresh.resume_overtaken {mode : Cache.Install} {source : Source} {p q : Placement}
    (hsource : source.Publishes n) (hq : source.placement n = .ok (some q))
    (hmoved : q.cluster ≠ p.cluster) (c : Cache) :
    resume b mode n (.record p) source c =
      (.ended (.error (.noSuchStore n (some (.notFound n)))), c) := by
  obtain ⟨q', hq', -, -, helsewhere⟩ := hsource.placed
  obtain rfl : q = q' := by
    rw [hq] at hq'
    exact Option.some.inj (Except.ok.inj hq')
  have hnone : source.record n p.cluster = .error (.notFound n) := helsewhere _ hmoved.symm
  simp only [resume, recorded, hnone]
  rfl

/-! ### Events -/

/-- **The event overtakes a refresh.** It brings an answer to the actor `a`, whose refresh of the
store `n` waits for the record on one cluster, and by now the store is placed on another. -/
def Overtaken (w : World) (e : Event) (mode : Cache.Install) (n : String) (a : Actor) : Prop :=
  ∃ source p q, e.answer? = some (a, source) ∧ w.flight? a = some ⟨mode, n, .record p⟩ ∧
    source.placement n = .ok (some q) ∧ q.cluster ≠ p.cluster

/-- In this event the store `n` is published, and nobody unsubscribes it or clears the cache. -/
structure Sheltered (b : Behaviour) (w : World) (e : Event) (n : String) : Prop where
  published : ∀ a source, e.answer? = some (a, source) → source.Publishes n
  uncalled : ∀ id, e ≠ .call id (.unsubscribe n)
  uncleared : ¬ w.ClearedBy e
  inside : ∀ new, (w.step b e).cache.journal = new ++ w.cache.journal → ¬ UnsubscribedInside n new

namespace World

/-- **An overtaken sweep drops its store**, published as it is. -/
theorem dropped_of_overtaken (hs : Sheltered b w e n) (h : Overtaken w e .replace n a) :
    (w.step b e).cache.stores.get? n = none := by
  obtain ⟨source, p, q, he, hf, hq, hmoved⟩ := h
  obtain ⟨s, rfl, hstage, hcache⟩ := cache_step_of_replace (b := b) he hf
  have hresume : Refresh.resume b .replace s.current (.record p) source w.cache =
      (.ended (.error (.noSuchStore s.current (some (.notFound s.current)))), w.cache) :=
    Refresh.resume_overtaken (hs.published a source he) hq hmoved w.cache
  have hadvance : ∀ (tally : Tally) (names : List String) (c : Cache),
      (Sweep.advance tally names c).2.stores = c.stores := by
    intro tally names c
    cases names <;> rfl
  rw [hcache, Sweep.resume, hstage, hresume]
  show (Sweep.advance _ _ (w.cache.remove b s.current)).2.stores.get? s.current = none
  rw [hadvance]
  exact congrArg Shelf.store (Cache.shelf_remove_self s.current w.cache)

/-- **Nothing but an overtaken sweep drops a store** that is published and nobody unsubscribes. -/
theorem overtaken_of_dropped (hs : Sheltered b w e n) (hbefore : w.cache.stores.get? n ≠ none)
    (hafter : (w.step b e).cache.stores.get? n = none) : ∃ a, Overtaken w e .replace n a := by
  rcases step_keeps_or b w e n with ⟨new, hjournal, -, hinside | hkept⟩ | ⟨c, hdismissed, hwrote⟩
  · exact absurd hinside (hs.inside new hjournal)
  · exact absurd hafter (hkept hbefore)
  rcases hdismissed with ⟨id, he⟩ | hcleared | ⟨a, source, stage, err, he, hf, hr, herr⟩
  · exact absurd he (hs.uncalled id)
  · exact absurd hcleared hs.uncleared
  rcases Refresh.ended_noSuchStore (hs.published a source he) hr herr with
    ⟨p, q, rfl, hq, hmoved⟩ | ⟨new, hjournal, hinside⟩ | ⟨s, -, hnone⟩
  · exact ⟨a, source, p, q, he, hf, hq, hmoved⟩
  · -- What a callback has done to the store is in the journal of the whole event.
    obtain ⟨more, hmore, -⟩ := hwrote
    have happend := hinside.append more []
    rw [List.append_nil, opened_nil, Int.add_zero] at happend
    refine absurd happend (hs.inside _ ?_)
    rw [hmore, hjournal, List.append_assoc]
  · exact absurd hnone hbefore

end World

/-! ### Subscriptions -/

/-- A call that subscribes the store `n` waits, and the store is subscribed if it waits for the
schemas; or the call is over and has not been told that there is no such store. -/
inductive Seeking (id : CallId) (n : String) (u : World) : Prop
  | waiting (stage : Stage) (ht : u.task? id = some (.refresh n stage false))
    (ho : u.outcomes.lookup id = none)
    (hin : ∀ s, stage = .schemas s → u.cache.stores.get? n ≠ none)
  | through (ht : u.task? id = none)
    (ho : ∀ err, u.outcomes.lookup id = some (.error err) → err.isNoSuchStore = false)

theorem Seeking.of_dealt {u : World} (hnew : w.outcomes.lookup id = none)
    (hd : World.Dealt w id (fun o ↦ ∀ err, o = .error err → err.isNoSuchStore = false)
      (fun t ↦ ∃ stage, t = .refresh n stage false ∧
        ∀ s, stage = .schemas s → u.cache.stores.get? n ≠ none) u) : Seeking id n u := by
  rcases hd with ⟨v, o, rfl, -, -, -, ho⟩ | ⟨v, t, rfl, -, houtcomes, -, stage, rfl, hin⟩
  · refine .through ((World.task?_finish v id o id).trans (if_pos rfl)) fun err herr ↦ ho err ?_
    rw [World.finish, List.lookup_cons_self] at herr
    exact Option.some.inj herr
  · refine .waiting stage ((World.task?_wait v id _ id).trans (if_pos rfl)) ?_ hin
    rw [World.wait, houtcomes]
    exact hnew

theorem seeking_step_subscribe (hnew : w.knows id = false) :
    Seeking id n (w.step b (.call id (.subscribe n))) := by
  have hlookup : w.outcomes.lookup id = none := by
    simp only [World.knows, Bool.or_eq_false_iff] at hnew
    simpa using hnew.1.2
  refine .of_dealt hlookup ?_
  have hphase : ∀ {o err}, (∃ e, w.cache.phase.usable = .error e ∧ o = .error e) →
      o = (.error err : Outcome) → err.isNoSuchStore = false := by
    rintro _ err ⟨e, husable, rfl⟩ he
    obtain rfl := Except.error.inj he
    exact Phase.usable_error husable
  simp only [World.step, hnew, Bool.false_eq_true, if_false, World.call]
  split
  · rename_i e hhas
    refine .returned w _ rfl rfl rfl rfl fun err he ↦ hphase ⟨e, ?_, rfl⟩ he
    rcases husable : w.cache.phase.usable with e' | u <;> rw [Cache.has, husable] at hhas
    · exact congrArg _ (Except.error.inj hhas)
    · cases hhas
  · exact .returned w _ rfl rfl rfl rfl fun err he ↦ by cases he
  · exact (World.dealt_beginRefresh w id n false).mono (fun o ho err he ↦ hphase ho he)
      fun t ht ↦ ⟨.placement, ht, fun s hs ↦ by cases hs⟩

/-- An answer to the subscription. -/
theorem Seeking.answered {source : Source} {stage : Stage}
    (hs : Sheltered b w (.answer id source) n)
    (ht : w.task? id = some (.refresh n stage false)) (ho : w.outcomes.lookup id = none)
    (hin : ∀ s, stage = .schemas s → w.cache.stores.get? n ≠ none)
    (hcalm : ¬ Overtaken w (.answer id source) .upsert n (.call id)) :
    Seeking id n (w.step b (.answer id source)) := by
  have hf : w.flight? (.call id) = some ⟨.upsert, n, stage⟩ := by
    rw [World.flight?, ht]
    rfl
  have hstep : w.step b (.answer id source) =
      w.continueRefresh id n false (Refresh.resume b .upsert n stage source w.cache) :=
    World.step_answer_of_some ht
  have hcache : (w.step b (.answer id source)).cache =
      (Refresh.resume b .upsert n stage source w.cache).2 := by
    rw [hstep, World.cache_continueRefresh]
  refine .of_dealt ho ?_
  rw [hcache, hstep]
  refine (World.dealt_continueRefresh w id n false _).mono ?_ ?_
  · rintro o ⟨result, hresult, rfl⟩ err herr
    rcases hr : Refresh.resume b .upsert n stage source w.cache with ⟨progress, d⟩
    rw [hr] at hresult hcache
    obtain rfl : progress = .ended result := hresult
    rcases result with err' | _ | s
    · obtain rfl := Except.error.inj herr
      refine Bool.eq_false_iff.2 fun hgone ↦ ?_
      rcases Refresh.ended_noSuchStore (hs.published _ _ rfl) hr hgone with
        ⟨p, q, rfl, hq, hmoved⟩ | ⟨new, hjournal, hinside⟩ | ⟨s, rfl, hnone⟩
      · exact hcalm ⟨source, p, q, rfl, hf, hq, hmoved⟩
      · exact hs.inside new ((congrArg Cache.journal hcache).trans hjournal) hinside
      · exact hin s rfl hnone
    · have hmode := Refresh.ended_none (congrArg Prod.fst hr)
      cases hmode
    · cases herr
  · rintro t ⟨stage', hwaits, rfl⟩
    refine ⟨stage', rfl, fun s hstage ↦ ?_⟩
    exact Refresh.waiting_schemas (hwaits.trans (congrArg Progress.waiting hstage))

/-- **A subscription of a published store is not refused as if there was no such store**, unless it
is overtaken, or a sweep is while the subscription is going on. -/
theorem Seeking.step (h : Seeking id n w) (hknows : w.knows id) (hs : Sheltered b w e n)
    (hown : ¬ Overtaken w e .upsert n (.call id)) (hsweeps : ∀ a, ¬ Overtaken w e .replace n a) :
    Seeking id n (w.step b e) := by
  rcases h with ⟨stage, ht, ho, hin⟩ | ⟨ht, ho⟩
  · rcases World.fate (b := b) hknows e with ⟨htask, houtcome⟩ | ⟨source, t, rfl, -⟩ |
      ⟨htask, houtcome⟩ | ⟨order, ht', -⟩
    · refine .waiting stage (htask.trans ht) (houtcome.trans ho) fun s hstage hout ↦ ?_
      obtain ⟨a, hovertaken⟩ := World.overtaken_of_dropped hs (hin s hstage) hout
      exact hsweeps a hovertaken
    · exact .answered hs ht ho hin hown
    · refine .through htask fun err herr ↦ ?_
      rw [houtcome, ho] at herr
      cases herr
    · rw [ht] at ht'
      cases ht'
  · obtain ⟨htask, houtcome⟩ := World.step_of_task?_none (b := b) hknows ht e
    exact .through htask fun err herr ↦ ho err (houtcome ▸ herr)

/-- The subscription goes on as it should until a refresh is overtaken. -/
theorem Seeking.run (h : Seeking id n v) (hknows : v.knows id)
    (hs : ∀ earlier e, earlier ++ [e] <+: events → Sheltered b (v.run b earlier) e n) :
    Seeking id n (v.run b events) ∨ ∃ earlier e, earlier ++ [e] <+: events ∧
      (Overtaken (v.run b earlier) e .upsert n (.call id) ∨
        ∃ a, Overtaken (v.run b earlier) e .replace n a) := by
  induction events using List.reverseRecOn with
  | nil => exact Or.inl h
  | append_singleton events e ih =>
    have hbefore : ∀ {earlier e'}, earlier ++ [e'] <+: events → earlier ++ [e'] <+: events ++ [e] :=
      fun hp ↦ hp.trans (List.prefix_append events [e])
    rcases ih fun earlier e' hp ↦ hs earlier e' (hbefore hp) with
      hseeking | ⟨earlier, e', hp, hovertaken⟩
    · by_cases hnow : Overtaken (v.run b events) e .upsert n (.call id) ∨
          ∃ a, Overtaken (v.run b events) e .replace n a
      · exact Or.inr ⟨events, e, List.prefix_rfl, hnow⟩
      · obtain ⟨hown, hsweeps⟩ := not_or.1 hnow
        rw [World.run_concat]
        exact Or.inl (hseeking.step (World.run_knows hknows events)
          (hs events e List.prefix_rfl) hown (not_exists.1 hsweeps))
    · exact Or.inr ⟨earlier, e', hbefore hp, hovertaken⟩

/-! ### Runs -/

/-- Whatever is answered is answered by a catalog that publishes the store `n`, though it need not
be the same catalog from one answer to the next. -/
def PublishedThroughout (n : String) (events : List Event) : Prop :=
  ∀ e ∈ events, ∀ a source, e.answer? = some (a, source) →
    ∃ c : Catalog, c.Publishes n ∧ source = c.source

theorem World.task?_clear_of_run {tracks : Bool} {clock : Nat} {order : List String}
    (h : ((World.new tracks clock).run b events).task? id = some (.clear order)) :
    .call id (.clear order) ∈ events := by
  induction events using List.reverseRecOn with
  | nil => cases h
  | append_singleton events e ih =>
    rw [run_concat] at h
    rcases step_task?_clear h with hbefore | rfl
    · exact List.mem_append_left [e] (ih hbefore)
    · exact List.mem_append_right events List.mem_cons_self

theorem sheltered_of_run {tracks : Bool} {clock : Nat} (hpublished : PublishedThroughout n events)
    (hunsubscribe : ∀ id, .call id (.unsubscribe n) ∉ events)
    (hclear : ∀ id order, .call id (.clear order) ∉ events)
    (hinside : ¬ UnsubscribedInside n ((World.new tracks clock).run b events).cache.journal)
    {earlier : List Event} (hp : earlier ++ [e] <+: events) :
    Sheltered b ((World.new tracks clock).run b earlier) e n := by
  have hmem : e ∈ events := hp.subset (List.mem_append_right earlier List.mem_cons_self)
  refine ⟨fun a source he ↦ ?_, fun id he ↦ hunsubscribe id (he ▸ hmem), ?_,
    fun new hnew hwithin ↦ ?_⟩
  · obtain ⟨c, hc, rfl⟩ := hpublished e hmem a source he
    exact hc.source
  · rintro (⟨id, order, rfl⟩ | ⟨id, order, -, ht⟩)
    · exact hclear id order hmem
    · refine hclear id order (hp.subset (List.mem_append_left [e] ?_))
      exact World.task?_clear_of_run ht
  · -- No callback was open before the event, so one that unsubscribes in it is seen in the whole.
    obtain ⟨later, rfl⟩ := hp
    obtain ⟨old, hold, hreturned⟩ := World.run_returned b (World.new tracks clock) earlier
    obtain ⟨more, hmore, -⟩ :=
      World.run_wrote b ((World.new tracks clock).run b (earlier ++ [e])) later
    have happend := hwithin.append more old
    rw [hreturned, Int.add_zero] at happend
    refine hinside ?_
    rw [World.run_append, hmore, World.run_concat, hnew, hold]
    simpa [World.new, Cache.new, UnsubscribedInside] using happend

/-- **When a published store is dropped.** Take a run with answers from catalogs that publish the
store `n` all the time, in which no caller and no callback unsubscribes `n` and nobody clears the
cache.

* Of the events that find `n` subscribed, those leave it not subscribed which overtake the refresh
  of a sweep, and no others.
* A call to subscribe `n` that is refused because there is no such store has been overtaken, or a
  sweep has been while the call was waiting.
* Such a call that is overtaken is refused because there is no such store. -/
theorem drop_of_published_store (b : Behaviour) (tracks : Bool) (clock : Nat) (events : List Event)
    (n : String) (hpublished : PublishedThroughout n events)
    (hunsubscribe : ∀ id, .call id (.unsubscribe n) ∉ events)
    (hclear : ∀ id order, .call id (.clear order) ∉ events)
    (hinside : ¬ UnsubscribedInside n ((World.new tracks clock).run b events).cache.journal) :
    let v := World.new tracks clock
    (∀ earlier e, earlier ++ [e] <+: events → (v.run b earlier).cache.stores.get? n ≠ none →
      ((v.run b (earlier ++ [e])).cache.stores.get? n = none ↔
        ∃ a, Overtaken (v.run b earlier) e .replace n a)) ∧
    (∀ before id after, before ++ .call id (.subscribe n) :: after = events →
      (v.run b before).knows id = false →
      (∃ err, (v.run b events).outcomes.lookup id = some (.error err) ∧ err.isNoSuchStore = true) →
        ∃ between e, between ++ [e] <+: after ∧
          let w := v.run b (before ++ .call id (.subscribe n) :: between)
          Overtaken w e .upsert n (.call id) ∨ ∃ a, Overtaken w e .replace n a) ∧
    ∀ earlier e id, earlier ++ [e] <+: events → Overtaken (v.run b earlier) e .upsert n (.call id) →
      (v.run b (earlier ++ [e])).outcomes.lookup id =
        some (.error (.noSuchStore n (some (.notFound n)))) := by
  intro v
  have hsheltered : ∀ {earlier e}, earlier ++ [e] <+: events → Sheltered b (v.run b earlier) e n :=
    fun hp ↦ sheltered_of_run hpublished hunsubscribe hclear hinside hp
  refine ⟨fun earlier e hp hn ↦ ?_, ?_, ?_⟩
  · rw [World.run_concat]
    constructor
    · exact World.overtaken_of_dropped (hsheltered hp) hn
    · rintro ⟨a, hovertaken⟩
      exact World.dropped_of_overtaken (hsheltered hp) hovertaken
  · rintro before id after rfl hnew ⟨err, herr, hgone⟩
    have hrun : ∀ between, v.run b (before ++ .call id (.subscribe n) :: between) =
        ((v.run b before).step b (.call id (.subscribe n))).run b between :=
      fun between ↦ by rw [World.run_append, World.run_cons]
    have hknows : ((v.run b before).step b (.call id (.subscribe n))).knows id := by
      have hdealt := World.dealt_call (b := b) (v.run b before) id (.subscribe n)
      simp only [World.step, hnew, Bool.false_eq_true, if_false]
      exact hdealt.knows_self
    have hafter : ∀ between e, between ++ [e] <+: after →
        Sheltered b (((v.run b before).step b (.call id (.subscribe n))).run b between) e n := by
      intro between e hp
      obtain ⟨later, rfl⟩ := hp
      rw [← hrun]
      exact hsheltered ⟨later, by simp⟩
    rcases (seeking_step_subscribe hnew).run hknows hafter with
      hseeking | ⟨between, e, hp, hovertaken⟩
    · rw [hrun] at herr
      rcases hseeking with ⟨-, -, ho, -⟩ | ⟨-, ho⟩
      · rw [ho] at herr
        cases herr
      · rw [ho err herr] at hgone
        cases hgone
    · refine ⟨between, e, hp, ?_⟩
      rw [hrun]
      exact hovertaken
  · rintro earlier e id hp ⟨source, p, q, he, hf, hq, hmoved⟩
    obtain ⟨id', wantsRecord, hid, hstep⟩ := World.step_of_upsert (b := b) he hf
    obtain rfl := Actor.call.inj hid
    have hsource : source.Publishes n := (hsheltered hp).published _ source he
    rw [World.run_concat, hstep, Refresh.resume_overtaken hsource hq hmoved]
    exact List.lookup_cons_self

/-- A catalog that publishes a store. -/
def Catalog.settled : Catalog := Catalog.empty.publish (.new "orders") "east"

/-- The same catalog after the store has been placed on another cluster. -/
def Catalog.moved : Catalog := Catalog.settled.place (.new "orders" "west")

theorem Catalog.publishes_settled : Catalog.settled.Publishes "orders" :=
  publishes_publish (.new "orders") "east" rfl

theorem Catalog.publishes_moved : Catalog.moved.Publishes "orders" :=
  publishes_settled.place fun _ ↦ rfl

/-- A store is subscribed, and a sweep is told its placement. -/
def untilMove : List Event :=
  [.call 0 .start, .call 1 (.subscribe "orders"), .answer 1 Catalog.settled.source,
    .answer 1 Catalog.settled.source, .answer 1 Catalog.settled.source, .call 2 (.sweep []),
    .answer 2 Catalog.settled.source]

/-- Then the store moves, and the sweep is answered for its record. -/
def throughMove : List Event := untilMove ++ [.answer 2 Catalog.moved.source]

theorem publishedThroughout_throughMove : PublishedThroughout "orders" throughMove := by
  intro e he a source hanswer
  have hcatalog : ∀ {c : Catalog} {i}, c.Publishes "orders" → e = .answer i c.source →
      ∃ c : Catalog, c.Publishes "orders" ∧ source = c.source := by
    rintro c i hc rfl
    cases hanswer
    exact ⟨c, hc, rfl⟩
  simp only [throughMove, untilMove, List.cons_append, List.nil_append, List.mem_cons,
    List.not_mem_nil, or_false] at he
  rcases he with rfl | rfl | he | he | he | rfl | he | he
  · cases hanswer
  · cases hanswer
  · exact hcatalog Catalog.publishes_settled he
  · exact hcatalog Catalog.publishes_settled he
  · exact hcatalog Catalog.publishes_settled he
  · cases hanswer
  · exact hcatalog Catalog.publishes_settled he
  · exact hcatalog Catalog.publishes_moved he

theorem not_unsubscribedInside_throughMove :
    ¬ UnsubscribedInside "orders" ((World.new true 0).run .silent throughMove).cache.journal :=
  not_unsubscribedInside (by decide)

/-- A store that moves at the wrong moment is dropped, and is published all the time. -/
theorem dropped_of_throughMove :
    PublishedThroughout "orders" throughMove ∧
      ((World.new true 0).run .silent untilMove).cache.stores.get? "orders" ≠ none ∧
      ((World.new true 0).run .silent throughMove).cache.stores.get? "orders" = none := by
  have hsubscribed :
      ((World.new true 0).run .silent untilMove).cache.stores.get? "orders" ≠ none := by
    decide
  have hovertaken : Overtaken ((World.new true 0).run .silent untilMove)
      (.answer 2 Catalog.moved.source) .replace "orders" (.call 2) :=
    ⟨Catalog.moved.source, .new "orders" "east", .new "orders" "west", rfl, by decide, by decide,
      by decide⟩
  obtain ⟨hdropped, -⟩ := drop_of_published_store .silent true 0 throughMove "orders"
    publishedThroughout_throughMove (by simp [throughMove, untilMove])
    (by simp [throughMove, untilMove]) not_unsubscribedInside_throughMove
  exact ⟨publishedThroughout_throughMove, hsubscribed,
    (hdropped untilMove _ List.prefix_rfl hsubscribed).2 ⟨.call 2, hovertaken⟩⟩

/-- **A store may be dropped that is published all the time** and that nobody unsubscribes. -/
theorem not_kept_of_published_store :
    ¬ ∀ (b : Behaviour) (tracks : Bool) (clock : Nat) (events : List Event) (n : String),
      let v := World.new tracks clock
      PublishedThroughout n events → (∀ id, .call id (.unsubscribe n) ∉ events) →
      (∀ id order, .call id (.clear order) ∉ events) →
      ¬ UnsubscribedInside n (v.run b events).cache.journal →
        ∀ earlier e, earlier ++ [e] <+: events → (v.run b earlier).cache.stores.get? n ≠ none →
          (v.run b (earlier ++ [e])).cache.stores.get? n ≠ none := by
  intro h
  have hclaimed := h .silent true 0 throughMove "orders" publishedThroughout_throughMove
    (by simp [throughMove, untilMove]) (by simp [throughMove, untilMove])
    not_unsubscribedInside_throughMove untilMove _ List.prefix_rfl (by decide)
  revert hclaimed
  decide

end StoreCache
