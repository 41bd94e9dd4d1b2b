import StoreCache.Proofs.Success

/-!
# When stores are dated

A store is dated at the very end of a refresh and undated at the very beginning of a removal, by
whichever of the calls, sweeps and callbacks comes to it. **The date of a store is the reading of
the clock at the last completion of a refresh since the store entered the cache**, and nothing is
dated that is not there (`freshness_of_run`).

What "last" means is said of the events: `LastSuch` is the last event of a run that is such as asked
for. A store enters with an event that finds it out and leaves it in; there is only one place in an
event where a record is brought in, and that is its beginning, so nothing is missed by looking
between events.

A completion is the third answer of its refresh. That the first two have come before is a fact about
the past of whoever waits for schemas (`obtained_of_flight?`).

The age of the stalest store is computed from its date alone. Ages are truncated at zero, and so is
the greatest of them: truncating keeps the order of dates, wherever the clock stands.
-/

namespace StoreCache

variable {b : Behaviour} {w : World} {e : Event} {n : String}

/-! ### Ages -/

namespace Freshness

variable {f : Freshness} {now : Nat}

theorem min?_values_eq_some_iff {oldest : Nat} :
    f.times.values.min? = some oldest ↔
      (∃ n, f.last? n = some oldest) ∧ ∀ n t, f.last? n = some t → oldest ≤ t := by
  rw [List.min?_eq_some_iff]
  simp only [Dict.mem_values_iff]
  exact and_congr_right fun _ ↦ ⟨fun h n t ht ↦ h t ⟨n, ht⟩, fun h t ⟨n, ht⟩ ↦ h n t ht⟩

theorem stalest?_eq_none_iff : f.stalest? now = none ↔ ∀ n, f.last? n = none := by
  rw [stalest?, Option.map_eq_none_iff, List.min?_eq_none_iff]
  refine ⟨fun h n ↦ Option.eq_none_iff_forall_ne_some.2 fun t ht ↦ ?_, fun h ↦ ?_⟩
  · have hmem : t ∈ f.times.values := Dict.mem_values_iff.2 ⟨n, ht⟩
    rw [h] at hmem
    cases hmem
  · refine List.eq_nil_iff_forall_not_mem.2 fun t hmem ↦ ?_
    obtain ⟨n, hn⟩ := Dict.mem_values_iff.1 hmem
    cases (h n).symm.trans hn

/-- **The age of the stalest store is the greatest age**, each truncated at zero. -/
theorem stalest?_eq_some_iff {age : Nat} :
    f.stalest? now = some age ↔
      (∃ n t, f.last? n = some t ∧ ((now : Int) - t).toNat = age) ∧
        ∀ n t, f.last? n = some t → ((now : Int) - t).toNat ≤ age := by
  rw [stalest?, Option.map_eq_some_iff]
  constructor
  · rintro ⟨oldest, holdest, rfl⟩
    obtain ⟨⟨n, hn⟩, hle⟩ := min?_values_eq_some_iff.1 holdest
    refine ⟨⟨n, oldest, hn, by omega⟩, fun m t ht ↦ ?_⟩
    have := hle m t ht
    omega
  · rintro ⟨⟨n, t, ht, hage⟩, hgreatest⟩
    rcases holdest : f.times.values.min? with - | oldest
    · rw [List.min?_eq_none_iff] at holdest
      have hmem : t ∈ f.times.values := Dict.mem_values_iff.2 ⟨n, ht⟩
      rw [holdest] at hmem
      cases hmem
    · obtain ⟨⟨m, hm⟩, hle⟩ := min?_values_eq_some_iff.1 holdest
      have hmost := hgreatest m oldest hm
      have holder := hle n t ht
      exact ⟨oldest, rfl, by omega⟩

end Freshness

/-! ### What an event does to a date -/

/-- An install keeps the date of a store, or the listeners have unsubscribed it. -/
theorem Cache.last?_install (mode : Install) (p : Placement) (s : Store) (c : Cache) (n : String) :
    (c.install b mode p s).2.freshness.last? n = c.freshness.last? n ∨
      (c.install b mode p s).2.stores.get? n = none := by
  have hi := Cache.installation (b := b) mode p s c
  generalize c.install b mode p s = r at hi ⊢
  cases hi with
  | refused => exact Or.inl rfl
  | passedOver => exact Or.inl rfl
  | unchanged => exact Or.inl rfl
  | changed =>
    generalize s.completed.quota - ((c.stores.get? s.name).map Store.quota).getD 0 = delta
    rcases Cache.cascading_time.notify (fun _ _ _ ↦ Or.inl ⟨rfl, rfl⟩)
      ((c.put p s.completed).addQuota delta) n with hkept | hbare
    · exact Or.inl hkept.2
    · exact Or.inr (congrArg Shelf.store hbare)

/-- A cascade brings no store in and dates none. -/
theorem Cache.last?_of_cascade {c d : Cache}
    (h : (d.shelf n = c.shelf n ∧ d.freshness.last? n = c.freshness.last? n) ∨ d.shelf n = .bare)
    (hc : c.freshness.last? n = w.cache.freshness.last? n ∨ c.stores.get? n = none) :
    d.freshness.last? n = w.cache.freshness.last? n ∨ d.stores.get? n = none := by
  rcases h with ⟨hshelf, htime⟩ | hbare
  · exact hc.imp (htime.trans ·) ((congrArg Shelf.store hshelf).trans ·)
  · exact Or.inr (congrArg Shelf.store hbare)

/-- **Only a completion dates a store.** Any other event keeps its date or leaves the store out. -/
theorem Pieces.last? {d : Cache} (h : Pieces b w e w.cache d) (hother : ¬ Completes b w e n) :
    d.freshness.last? n = w.cache.freshness.last? n ∨ d.stores.get? n = none := by
  induction h with
  | refl => exact Or.inl rfl
  | @tail c d _ hpiece ih =>
    cases hpiece with
    | ask | start | close | clock => exact ih
    | install => exact Cache.last?_install _ _ _ _ n
    | @file _ a source name data =>
      have hf := Cache.filing name data c
      generalize c.file name data = r at hf ⊢
      cases hf <;> exact ih
    | refreshed _ name _ _ hdone =>
      have hn : n ≠ name := by
        rintro rfl
        exact hother hdone
      have hsame := Cache.standing_reportRefreshed_of_ne (c := c) hn
      exact ih.imp ((congrArg Standing.time hsame).trans ·)
        ((congrArg (Shelf.store ∘ Standing.shelf) hsame).trans ·)
    | remove _ name => exact Cache.last?_of_cascade (Cache.cascading_time.remove name _ n) ih
    | wipe => exact Or.inr rfl
    | register _ l => exact Cache.last?_of_cascade (Cache.cascading_time.register _ l n) ih
    | unregister _ l => exact Cache.last?_of_cascade (Cache.cascading_time.unregister _ l n) ih

/-- Turning to the next store of a sweep is a question at most. -/
theorem Sweep.cache_advance (tally : Tally) (names : List String) (c : Cache) :
    (Sweep.advance tally names c).2.stores = c.stores ∧
      (Sweep.advance tally names c).2.freshness = c.freshness := by
  cases names <;> exact ⟨rfl, rfl⟩

/-- **A completion dates its store by the clock**, and finds it subscribed. -/
theorem Completes.last? (htracking : w.cache.Tracking) (h : Completes b w e n) :
    w.cache.stores.get? n ≠ none ∧ (w.step b e).cache.stores.get? n = w.cache.stores.get? n ∧
      (w.step b e).cache.freshness.last? n = w.cache.reading := by
  obtain ⟨a, source, mode, s, he, hf, hdone⟩ := h
  have hresumed := Refresh.resumed b mode n (.schemas s) source w.cache
  rcases hnext : Refresh.resume b mode n (.schemas s) source w.cache with ⟨progress, c⟩
  rw [hnext] at hresumed hdone
  cases hresumed with
  | refused | unusable | absent => cases hdone
  | @done _ data hdata hphase hin =>
    obtain ⟨-, hstores, -, hdated, -⟩ := Cache.refreshed_file hphase hin htracking.off data
    -- Whoever the refresh is for, no more is done to the records and the dates.
    have hcache : (w.step b e).cache.stores = ((w.cache.file n data).2.reportRefreshed n).stores ∧
        (w.step b e).cache.freshness = ((w.cache.file n data).2.reportRefreshed n).freshness := by
      cases mode with
      | upsert =>
        obtain ⟨id, wantsRecord, -, hstep⟩ := World.step_of_upsert (b := b) he hf
        rw [hstep, World.cache_continueRefresh, hnext]
        exact ⟨rfl, rfl⟩
      | replace =>
        obtain ⟨sweep, hcurrent, hstage, hstep⟩ := World.cache_step_of_replace (b := b) he hf
        rw [hstep, Sweep.resume, hcurrent, hstage, hnext]
        exact Sweep.cache_advance _ _ _
    refine ⟨hin, ?_, ?_⟩
    · rw [hcache.1, hstores]
    · rw [hcache.2, hdated]

/-! ### The past of a completion -/

/-- In the run of `events` from `w`, a refresh of the store `name` has been told a placement and
then, on its cluster, the record that it has installed as `s`; and the actor has waited for the
schemas ever since. -/
def Obtained (b : Behaviour) (w : World) (events : List Event) (a : Actor) (name : String)
    (s : Store) : Prop :=
  ∃ (before between : List Event) (e : Event) (source : Source) (mode : Cache.Install)
    (p : Placement) (fetched : Store),
    events = before ++ e :: between ∧ Carried b w before a name p ∧
    (w.run b before).flight? a = some ⟨mode, name, .record p⟩ ∧ e.answer? = some (a, source) ∧
    source.record name p.cluster = .ok fetched ∧ fetched.completed = s ∧
    ∀ mid, mid <+: between →
      (w.run b (before ++ e :: mid)).flight? a = some ⟨mode, name, .schemas s⟩

/-- A refresh comes to wait for the schemas only with a record it has just been told and installed.
-/
theorem Refresh.told_of_waiting_schemas {mode : Cache.Install} {name : String} {before : Stage}
    {source : Source} {c : Cache} {s : Store}
    (h : (Refresh.resume b mode name before source c).1 = .waiting (.schemas s)) :
    ∃ p fetched, before = .record p ∧ source.record name p.cluster = .ok fetched ∧
      fetched.completed = s := by
  have hresumed := Refresh.resumed b mode name before source c
  generalize Refresh.resume b mode name before source c = next at h hresumed
  cases hresumed with
  | @installed p fetched t d hs _ hinstall =>
    cases h
    have hi := Cache.installation (b := b) mode p fetched c
    rw [hinstall] at hi
    refine ⟨p, fetched, rfl, hs, ?_⟩
    cases hi <;> rfl
  | refused | unusable | placed | passedOver | lost | absent | done => cases h

theorem obtained_of_flight? {tracks : Bool} {clock : Nat} {events : List Event} {a : Actor}
    {mode : Cache.Install} {name : String} {s : Store}
    (h : ((World.new tracks clock).run b events).flight? a = some ⟨mode, name, .schemas s⟩) :
    Obtained b (World.new tracks clock) events a name s := by
  obtain ⟨before, between, e, source, stage, hevents, he, hf, hr, hwaits⟩ :=
    answered_of_flight? h nofun
  obtain ⟨p, fetched, rfl, hs, hcompleted⟩ := Refresh.told_of_waiting_schemas hr
  exact ⟨before, between, e, source, mode, p, fetched, hevents, (carried_of_flight? hf).1, hf, he,
    hs, hcompleted, hwaits⟩

/-- **A refresh that completes has gone through all three phases**: it has been told a placement, a
record and, now, the schemas. -/
theorem phases_of_completes {tracks : Bool} {clock : Nat} {events : List Event}
    (h : Completes b ((World.new tracks clock).run b events) e n) :
    ∃ a s source d, Obtained b (World.new tracks clock) events a n s ∧
      e.answer? = some (a, source) ∧ source.schemas n = .ok d := by
  obtain ⟨a, source, mode, s, he, hf, hdone⟩ := h
  have hresumed := Refresh.resumed b mode n (.schemas s) source
    ((World.new tracks clock).run b events).cache
  generalize Refresh.resume b mode n (.schemas s) source
    ((World.new tracks clock).run b events).cache = next at hdone hresumed
  cases hresumed with
  | refused | unusable | absent => cases hdone
  | done hdata => exact ⟨a, s, source, _, obtained_of_flight? hf, he, hdata⟩

/-! ### The last event of a kind -/

/-- The event `e`, which comes after the events `before`, is the last of the `events` that is such
as `P`. -/
def LastSuch (P : List Event → Event → Prop) (events before : List Event) (e : Event) : Prop :=
  ∃ after, events = before ++ e :: after ∧ P before e ∧
    ∀ mid e' rest, after = mid ++ e' :: rest → ¬ P (before ++ e :: mid) e'

section LastSuch

variable {P : List Event → Event → Prop} {events before : List Event} {last : Event}

theorem LastSuch.length_lt (h : LastSuch P events before e) : before.length < events.length := by
  obtain ⟨after, rfl, -⟩ := h
  simp

theorem lastSuch_concat_self (hlast : P events last) :
    LastSuch P (events ++ [last]) before e ↔ before = events ∧ e = last := by
  constructor
  · rintro ⟨after, hevents, -, hnone⟩
    rcases List.eq_nil_or_concat after with rfl | ⟨mid, x, rfl⟩
    · obtain ⟨hbefore, he⟩ := List.append_inj' hevents rfl
      exact ⟨hbefore.symm, (List.cons.inj he).1.symm⟩
    · -- Whatever comes before the last event is followed by it.
      rw [List.concat_eq_append] at hevents hnone
      rw [← List.cons_append, ← List.append_assoc] at hevents
      obtain ⟨rfl, hx⟩ := List.append_inj' hevents rfl
      obtain rfl := (List.cons.inj hx).1
      exact absurd hlast (hnone mid last [] rfl)
  · rintro ⟨rfl, rfl⟩
    exact ⟨[], rfl, hlast, fun mid _ _ h ↦ absurd h (by simp)⟩

theorem lastSuch_concat_of_not (hlast : ¬ P events last) :
    LastSuch P (events ++ [last]) before e ↔ LastSuch P events before e := by
  constructor
  · rintro ⟨after, hevents, he, hnone⟩
    rcases List.eq_nil_or_concat after with rfl | ⟨mid, x, rfl⟩
    · obtain ⟨rfl, hx⟩ := List.append_inj' hevents rfl
      obtain rfl := (List.cons.inj hx).1
      exact absurd he hlast
    · rw [List.concat_eq_append] at hevents hnone
      rw [← List.cons_append, ← List.append_assoc] at hevents
      obtain ⟨hevents, -⟩ := List.append_inj' hevents rfl
      refine ⟨mid, hevents, he, fun mid' e' rest hmid ↦ hnone mid' e' (rest ++ [x]) ?_⟩
      rw [hmid, List.append_assoc, List.cons_append]
  · rintro ⟨after, rfl, he, hnone⟩
    refine ⟨after ++ [last], by simp, he, fun mid e' rest hmid ↦ ?_⟩
    rcases List.eq_nil_or_concat rest with rfl | ⟨rest, x, rfl⟩
    · obtain ⟨rfl, hx⟩ := List.append_inj' hmid rfl
      obtain rfl := (List.cons.inj hx).1
      exact hlast
    · rw [List.concat_eq_append, ← List.cons_append, ← List.append_assoc] at hmid
      exact hnone mid e' rest (List.append_inj' hmid rfl).1

end LastSuch

/-! ### Dates after runs -/

/-- With the event that comes after `before`, the store `n` enters the cache. -/
def Enters (b : Behaviour) (w : World) (n : String) (before : List Event) (e : Event) : Prop :=
  (w.run b before).cache.stores.get? n = none ∧
    (w.run b (before ++ [e])).cache.stores.get? n ≠ none

/-- With the event that comes after `before`, a refresh of the store `n` completes. -/
def Completing (b : Behaviour) (w : World) (n : String) (before : List Event) (e : Event) : Prop :=
  Completes b (w.run b before) e n

/-- The store `n` has been refreshed since it last entered the cache, and `before` is what has come
before the last completion. -/
def RefreshedSince (b : Behaviour) (w : World) (n : String) (events before : List Event) : Prop :=
  ∃ entry entering completing, LastSuch (Enters b w n) events entry entering ∧
    LastSuch (Completing b w n) events before completing ∧ entry.length < before.length

section Run

variable {clock : Nat} {events : List Event}

/-- A store that is there has entered. -/
theorem exists_entry {tracks : Bool}
    (hin : ((World.new tracks clock).run b events).cache.stores.get? n ≠ none) :
    ∃ entry entering, LastSuch (Enters b (World.new tracks clock) n) events entry entering := by
  induction events using List.reverseRecOn with
  | nil => exact absurd rfl hin
  | append_singleton events e ih =>
    by_cases hbefore : ((World.new tracks clock).run b events).cache.stores.get? n = none
    · exact ⟨events, e, (lastSuch_concat_self ⟨hbefore, hin⟩).2 ⟨rfl, rfl⟩⟩
    · obtain ⟨entry, entering, hentry⟩ := ih hbefore
      exact ⟨entry, entering, (lastSuch_concat_of_not fun h ↦ hbefore h.1).2 hentry⟩

/-- **The date of a store** is the reading of the clock at the last completion since the store has
entered. -/
theorem last?_eq_some_iff_of_run (t : Nat) :
    ((World.new true clock).run b events).cache.freshness.last? n = some t ↔
      ((World.new true clock).run b events).cache.stores.get? n ≠ none ∧
        ∃ before, RefreshedSince b (World.new true clock) n events before ∧
          t = ((World.new true clock).run b before).cache.clock := by
  induction events using List.reverseRecOn with
  | nil => exact ⟨nofun, fun ⟨h, _⟩ ↦ absurd rfl h⟩
  | append_singleton events e ih =>
    have hpieces := World.step_pieces b ((World.new true clock).run b events) e
    have htracking := run_tracking b true clock events
    have htracking' := run_tracking b true clock (events ++ [e])
    have htracks := tracks_of_run b true clock events
    have hdated := Completes.last? (b := b) (e := e) (n := n) htracking
    rw [← World.run_concat] at hpieces hdated
    by_cases hin : ((World.new true clock).run b (events ++ [e])).cache.stores.get? n = none
    · simp [htracking'.subscribed n hin, hin]
    by_cases hbefore : ((World.new true clock).run b events).cache.stores.get? n = none
    · -- The store enters, without a date, and nothing has come since.
      have hother : ¬ Completes b ((World.new true clock).run b events) e n :=
        fun h ↦ (hdated h).1 hbefore
      have hnone := (hpieces.last? hother).resolve_right hin
      rw [hnone, htracking.subscribed n hbefore]
      refine ⟨nofun, ?_⟩
      rintro ⟨-, before, ⟨entry, entering, completing, hentry, hcompleting, hlt⟩, -⟩
      obtain ⟨rfl, -⟩ := (lastSuch_concat_self ⟨hbefore, hin⟩).1 hentry
      have := hcompleting.length_lt
      simp only [List.length_append, List.length_singleton] at this
      omega
    · have hstays : ¬ Enters b (World.new true clock) n events e := fun h ↦ hbefore h.1
      by_cases hdone : Completes b ((World.new true clock).run b events) e n
      · -- The refresh that completes is the last to have done so.
        rw [(hdated hdone).2.2, Cache.reading, htracks, if_pos rfl, Option.some_inj]
        constructor
        · rintro rfl
          obtain ⟨entry, entering, hentry⟩ := exists_entry hbefore
          exact ⟨hin, events, ⟨entry, entering, e, (lastSuch_concat_of_not hstays).2 hentry,
            (lastSuch_concat_self hdone).2 ⟨rfl, rfl⟩, hentry.length_lt⟩, rfl⟩
        · rintro ⟨-, before, ⟨entry, entering, completing, -, hcompleting, -⟩, rfl⟩
          obtain ⟨rfl, -⟩ := (lastSuch_concat_self (P := Completing b _ n) hdone).1 hcompleting
          rfl
      · rw [(hpieces.last? hdone).resolve_right hin, ih]
        simp only [RefreshedSince, lastSuch_concat_of_not hstays,
          lastSuch_concat_of_not (P := Completing b _ n) hdone, ne_eq, hbefore, hin]

end Run

/-- **What is tracked follows the cache**, after every run of a cache that reports its refreshes,
whatever the sources answer, whatever the listeners do, and however the clock is set:

* every store that has a date is subscribed;
* a store has a date exactly if it is subscribed and a refresh of it has completed since it last
  entered the cache, and the date is then the reading of the clock at the last such completion;
* a refresh that completes has been told its placement, its record and its schemas;
* the age of the stalest store is unknown exactly if no store has a date, and is otherwise the
  greatest age of a store that has one, where ages below zero count as zero. -/
theorem freshness_of_run (b : Behaviour) (clock : Nat) (events : List Event) :
    let v := World.new true clock
    let c := (v.run b events).cache
    (∀ n, c.freshness.last? n ≠ none → c.stores.get? n ≠ none) ∧
    (∀ n t, c.freshness.last? n = some t ↔ c.stores.get? n ≠ none ∧
      ∃ before, RefreshedSince b v n events before ∧ t = (v.run b before).cache.clock) ∧
    (∀ n before e, Completing b v n before e → ∃ a s source d, Obtained b v before a n s ∧
      e.answer? = some (a, source) ∧ source.schemas n = .ok d) ∧
    ∀ now, (c.freshness.stalest? now = none ↔ ∀ n, c.freshness.last? n = none) ∧
      ∀ age, c.freshness.stalest? now = some age ↔
        (∃ n t, c.freshness.last? n = some t ∧ ((now : Int) - t).toNat = age) ∧
          ∀ n t, c.freshness.last? n = some t → ((now : Int) - t).toNat ≤ age := by
  intro v c
  refine ⟨fun n hdate hout ↦ ?_, fun n t ↦ last?_eq_some_iff_of_run t, fun n before e h ↦ ?_,
    fun now ↦ ⟨Freshness.stalest?_eq_none_iff, fun age ↦ Freshness.stalest?_eq_some_iff⟩⟩
  · exact hdate ((run_tracking b true clock events).subscribed n hout)
  · exact phases_of_completes h

/-- A store that has left and come back has no date until its refresh completes. -/
example :
    let w := (World.new true 7).run .silent (ordersSubscribed ++ [.call 3 (.unsubscribe "orders"),
      .clock 5, .call 4 (.subscribe "orders"), .answer 4 .orders, .answer 4 .orders])
    w.cache.stores.contains "orders" = true ∧ w.cache.freshness.last? "orders" = none ∧
      (w.step .silent (.answer 4 .orders)).cache.freshness.last? "orders" = some 5 := by
  decide

end StoreCache
