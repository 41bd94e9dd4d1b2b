import StoreCache.Proofs.Alone
import StoreCache.Proofs.Chronicle
import StoreCache.Proofs.Shape

/-!
# Calls that succeed

A call that subscribes a store or refreshes it waits three times and tells the listeners once, and
in each of these pauses the store may be unsubscribed, dropped by a sweep, installed again by
somebody else, or the cache may be cleared. Whether the call succeeds is decided where its record is
installed, where it asks for the schemas and where they are filed. These places together make that
**a call that succeeds leaves its store subscribed**: at the instant it returns the record and the
placement are there, the schema set is the one the call has just been told, and the store is dated
by the clock. A subscription of a store that is there already is the one exception, as it asks
nothing.

Conversely a call does not bring back what has been taken out since its record was installed
(`success_of_run`, second part). It is refused, and the store stays away.
-/

namespace StoreCache

variable {b : Behaviour} {v w : World} {id : CallId} {n : String} {op : Operation} {e : Event}

/-! ### What the journal says of a store taken out -/

/-- A store that has been taken out and not been installed again is not there. -/
theorem replayed_removed {records : Dict String Store} {newer older : List Entry} {r : Store}
    (hr : r.name = n) (hnewer : ∀ previous s p, .installed previous s p ∈ newer → s.name ≠ n) :
    (replayed records (newer ++ .removed r :: older)).get? n = none := by
  have hout : (replayed records (.removed r :: older)).get? n = none :=
    (Dict.get?_erase _ _ _).trans (if_pos hr.symm)
  rw [replayed_append]
  refine Option.eq_none_iff_forall_ne_some.2 fun s hs ↦ ?_
  rcases installed_of_replayed hs with hin | ⟨previous, p, hmem, hname⟩
  · cases hout.symm.trans hin
  · exact hnewer previous s p hmem hname

/-- Nor is it in the cache whose journal says so. -/
theorem World.stores_of_removed {events : List Event} {newer older : List Entry} {r : Store}
    (hnamed : w.cache.Named)
    (hjournal : (w.run b events).cache.journal = newer ++ .removed r :: (older ++ w.cache.journal))
    (hr : r.name = n) (hnewer : ∀ previous s p, .installed previous s p ∈ newer → s.name ≠ n) :
    (w.run b events).cache.stores.get? n = none := by
  obtain ⟨since, hsince, hchronicled⟩ := run_chronicled b w events
  obtain ⟨-, hstores, -⟩ := hchronicled hnamed
  have hsplit : since = newer ++ .removed r :: older := by
    refine List.append_cancel_right (hsince.symm.trans (hjournal.trans ?_))
    rw [List.append_assoc, List.cons_append]
  rw [hstores, hsplit]
  exact replayed_removed hr hnewer

namespace World

/-! ### Calls for one store -/

/-- If the call `id` waits, then in a refresh of the store `n` of its own. -/
def Serves (id : CallId) (n : String) (w : World) : Prop :=
  ∀ t, w.task? id = some t → ∃ stage wantsRecord, t = .refresh n stage wantsRecord

theorem serves_step_call (hnew : w.knows id = false) (hop : op = .subscribe n ∨ op = .refresh n) :
    (w.step b (.call id op)).Serves id n := by
  intro t ht
  have hof : Task.Of op t := (step_call (b := b) hnew op ▸ dealt_call w id op).task?_self ht
  rcases hop with rfl | rfl
  · exact ⟨.placement, false, hof⟩
  · exact ⟨.placement, true, hof⟩

theorem Serves.run (h : w.Serves id n) (hknows : w.knows id) (events : List Event) :
    (w.run b events).Serves id n := by
  refine Held.run h (fun order ⟨_, _, hclear⟩ ↦ nomatch hclear) ?_ hknows events
  rintro w source _ t ⟨stage, wantsRecord, rfl⟩ ht
  obtain ⟨stage', -, rfl⟩ := (dealt_continueRefresh w id n wantsRecord _).task?_self ht
  exact ⟨stage', wantsRecord, rfl⟩

/-- In the event `e` the call `id` returns. -/
def Returns (b : Behaviour) (w : World) (e : Event) (id : CallId) (o : Outcome) : Prop :=
  w.outcomes.lookup id = none ∧ (w.step b e).outcomes.lookup id = some o

/-! ### Success -/

/-- **A call succeeds at once only if it finds its store subscribed.** -/
theorem Returns.of_call {a : Answer} (h : w.Returns b (.call id op) id (.ok a))
    (hnew : w.knows id = false) (hop : op = .subscribe n ∨ op = .refresh n) :
    op = .subscribe n ∧ w.cache.phase = .started ∧ w.cache.stores.get? n ≠ none ∧
      (w.step b (.call id op)).cache = w.cache := by
  obtain ⟨hnone, hreturned⟩ := h
  have hrefused : ∀ wantsRecord,
      (w.beginRefresh id n wantsRecord).outcomes.lookup id ≠ some (.ok a) := by
    intro wantsRecord ho
    rcases (dealt_beginRefresh w id n wantsRecord).lookup_self ho with ⟨err, -, herr⟩ | hbefore
    · cases herr
    · rw [hnone] at hbefore
      cases hbefore
  rw [step_call hnew] at hreturned ⊢
  rcases hop with rfl | rfl
  · rcases husable : w.cache.phase.usable with err | u
    · have hhas : w.cache.has n = .error err := by
        rw [Cache.has, husable]
        rfl
      simp only [World.call, hhas, finish, List.lookup_cons_self] at hreturned
      cases hreturned
    · have hhas : w.cache.has n = .ok (w.cache.stores.contains n) := by
        rw [Cache.has, husable]
        rfl
      rcases hin : w.cache.stores.contains n with - | -
      · simp only [World.call, hhas, hin] at hreturned
        exact absurd hreturned (hrefused false)
      · refine ⟨rfl, Phase.usable_eq_ok_iff.1 husable, Option.isSome_iff_ne_none.1 hin, ?_⟩
        simp only [World.call, hhas, hin]
        rfl
  · exact absurd hreturned (hrefused true)

/-- **A call that has waited succeeds only with the schemas it has just been told**, and finds its
store subscribed. -/
theorem Returns.of_serves {a : Answer} (h : w.Returns b e id (.ok a)) (hserves : w.Serves id n)
    (hknows : w.knows id) :
    ∃ source s wantsRecord d, e = .answer id source ∧
      w.task? id = some (.refresh n (.schemas s) wantsRecord) ∧ source.schemas n = .ok d ∧
      w.cache.phase = .started ∧ w.cache.stores.get? n ≠ none ∧
      (w.step b e).cache = (w.cache.file n d).2.reportRefreshed n := by
  obtain ⟨hnone, hreturned⟩ := h
  rcases fate (b := b) hknows e with ⟨-, houtcome⟩ | ⟨source, t, rfl, ht, -, hu⟩ | ⟨-, houtcome⟩ |
    ⟨order, ht, -⟩
  · rw [houtcome, hnone] at hreturned
    cases hreturned
  · obtain ⟨stage, wantsRecord, rfl⟩ := hserves t ht
    have hcache : (w.step b (.answer id source)).cache =
        (Refresh.resume b .upsert n stage source w.cache).2 := by
      rw [hu]
      exact cache_continueRefresh w id n wantsRecord _
    rw [hu] at hreturned
    rw [hcache]
    have hdealt : (∃ r, (Refresh.resume b .upsert n stage source w.cache).1 = .ended r ∧
        .ok a = reply n wantsRecord r) ∨ _ :=
      (dealt_continueRefresh w id n wantsRecord _).lookup_self hreturned
    obtain ⟨r, hr, hreply⟩ := hdealt.resolve_right (by rw [hnone]; exact nofun)
    have hresumed := Refresh.resumed b .upsert n stage source w.cache
    generalize Refresh.resume b .upsert n stage source w.cache = next at hr hresumed ⊢
    -- Of all the ends of a refresh only one is answered without an error.
    cases hresumed with
    | @done s d hdata hphase hin =>
      exact ⟨source, s, wantsRecord, d, rfl, ht, hdata, hphase, hin, rfl⟩
    | refused | unusable | passedOver | lost | absent =>
      cases hr
      cases hreply
    | placed | installed => cases hr
  · rw [houtcome, hnone] at hreturned
    cases hreturned
  · obtain ⟨stage, wantsRecord, hclear⟩ := hserves _ ht
    cases hclear

end World

/-- What schemas and a report leave behind, if they come to a store that is subscribed. -/
theorem Cache.refreshed_file {c : Cache} (hphase : c.phase = .started)
    (hin : c.stores.get? n ≠ none) (hoff : c.tracks = false → c.freshness = .empty)
    (d : SchemaSet) :
    ((c.file n d).2.reportRefreshed n).phase = .started ∧
    ((c.file n d).2.reportRefreshed n).stores = c.stores ∧
    ((c.file n d).2.reportRefreshed n).schemas.get? n = some d ∧
    ((c.file n d).2.reportRefreshed n).freshness.last? n = c.reading ∧
    ((c.file n d).2.reportRefreshed n).reading = c.reading := by
  have hf := Cache.filing n d c
  generalize c.file n d = r at hf ⊢
  rcases hf with ⟨hunusable, -⟩ | ⟨-, hout⟩ | -
  · exact absurd hphase hunusable
  · exact absurd hout hin
  · rw [reportRefreshed_eq]
    refine ⟨hphase, rfl, ?_, ?_, rfl⟩
    · show (c.schemas.insert n d).get? n = some d
      rw [Dict.get?_insert, if_pos rfl]
    · show (if c.tracks then c.freshness.refreshed n c.clock else c.freshness).last? n =
        if c.tracks then some c.clock else none
      split
      · rw [last?_refreshed, if_pos rfl]
      · rename_i h
        rw [hoff (by simpa using h), last?_empty]

/-! ### Refusal -/

namespace World

variable {source : Source} {stage : Stage} {wantsRecord : Bool}

/-- The answer that a refresh is refused at. -/
theorem step_answer_refused {err : CacheError} {c : Cache}
    (ht : w.task? id = some (.refresh n stage wantsRecord))
    (hr : Refresh.resume b .upsert n stage source w.cache = (.ended (.error err), c)) :
    w.step b (.answer id source) = (w.withCache c).finish id (.error err) := by
  rw [step_answer_of_some ht, World.answer, hr, continueRefresh_ended]
  rfl

/-- After the record has been told, the call waits for the schemas of a store that is subscribed, or
it has been refused. -/
theorem step_answer_record {p : Placement}
    (ht : w.task? id = some (.refresh n (.record p) wantsRecord)) (source : Source) :
    (∃ s, (w.step b (.answer id source)).task? id = some (.refresh n (.schemas s) wantsRecord) ∧
      (w.step b (.answer id source)).cache.stores.get? n ≠ none) ∨
    (w.step b (.answer id source)).task? id = none ∧
      ∃ err, (w.step b (.answer id source)).outcomes.lookup id = some (.error err) := by
  have hresumed := Refresh.resumed b .upsert n (.record p) source w.cache
  generalize hr : Refresh.resume b .upsert n (.record p) source w.cache = next at hresumed
  have hrefused : ∀ {err c}, next = (.ended (.error err), c) →
      (w.step b (.answer id source)).task? id = none ∧
        ∃ err, (w.step b (.answer id source)).outcomes.lookup id = some (.error err) := by
    rintro err c rfl
    rw [step_answer_refused ht hr]
    exact ⟨(task?_finish _ id _ id).trans (if_pos rfl), err, List.lookup_cons_self⟩
  cases hresumed with
  | refused => exact Or.inr (hrefused rfl)
  | unusable => exact Or.inr (hrefused rfl)
  | lost => exact Or.inr (hrefused rfl)
  | passedOver hmode => cases hmode
  | @installed _ s t d _ _ _ hin =>
    refine Or.inl ⟨t, ?_, ?_⟩ <;> rw [step_answer_of_some ht, World.answer, hr]
    · exact (task?_wait _ id _ id).trans (if_pos rfl)
    · exact hin

/-- If the call `id` waits, then for the schemas of the store `n`, whose record it has installed. -/
def Finishes (id : CallId) (n : String) (w : World) : Prop :=
  ∀ t, w.task? id = some t → ∃ s wantsRecord, t = .refresh n (.schemas s) wantsRecord

theorem Finishes.run (h : w.Finishes id n) (hknows : w.knows id) (events : List Event) :
    (w.run b events).Finishes id n := by
  refine Held.run h (fun order ⟨_, _, hclear⟩ ↦ nomatch hclear) ?_ hknows events
  rintro w source _ t ⟨s, wantsRecord, rfl⟩ ht
  -- The schemas are the last thing that the call waits for.
  obtain ⟨stage, hwaits, -⟩ := (dealt_continueRefresh w id n wantsRecord _).task?_self ht
  have hresumed := Refresh.resumed b .upsert n (.schemas s) source w.cache
  generalize Refresh.resume b .upsert n (.schemas s) source w.cache = next at hwaits hresumed
  rcases hresumed with - | - | - | - | - | - | - | - <;> cases hwaits

/-- **Schemas do not bring a store back**: the call that is told them is refused. -/
theorem Finishes.refused {t : Task} (h : w.Finishes id n) (ht : w.task? id = some t)
    (hout : w.cache.stores.get? n = none) (source : Source) :
    (∃ err, (w.step b (.answer id source)).outcomes.lookup id = some (.error err)) ∧
      (w.step b (.answer id source)).cache = w.cache := by
  obtain ⟨s, wantsRecord, rfl⟩ := h t ht
  have hresumed := Refresh.resumed b .upsert n (.schemas s) source w.cache
  generalize hr : Refresh.resume b .upsert n (.schemas s) source w.cache = next at hresumed
  have hrefused : ∀ {err}, next = (.ended (.error err), w.cache) →
      (∃ err, (w.step b (.answer id source)).outcomes.lookup id = some (.error err)) ∧
        (w.step b (.answer id source)).cache = w.cache := by
    rintro err rfl
    rw [step_answer_refused ht hr]
    exact ⟨⟨err, List.lookup_cons_self⟩, rfl⟩
  cases hresumed with
  | refused => exact hrefused rfl
  | unusable => exact hrefused rfl
  | absent => exact hrefused rfl
  | done _ _ hin => exact absurd hout hin

end World

/-! ### Runs -/

/-- Nothing changes whether refreshes are reported. -/
theorem Piece.tracks {c d : Cache} (h : Piece b w e c d) : d.tracks = c.tracks := by
  rcases h with - | @⟨a, source, mode, name, p, s⟩ | @⟨-, a, source, name, d⟩ | @⟨-, name⟩ |
    @⟨-, name⟩ | @⟨-, order⟩ | - | - | @⟨-, l⟩ | @⟨-, l⟩ | -
  case install =>
    have hi := Cache.installation (b := b) mode p s w.cache
    generalize w.cache.install b mode p s = r at hi ⊢
    rcases hi with - | - | - | -
    case changed => exact (Cache.cascading_frame.notify (fun _ _ ↦ ⟨rfl, rfl, rfl⟩) _).2.1
    all_goals rfl
  case file =>
    have hf := Cache.filing name d c
    generalize c.file name d = r at hf ⊢
    rcases hf with - | - | - <;> rfl
  case refreshed => rw [Cache.reportRefreshed_eq]
  case remove => exact (Cache.cascading_frame.remove name c).2.1
  case wipe => exact (Cache.cascading_frame.removeAll (World.visiting order c) c).2.1
  case register => exact (Cache.cascading_frame.register c l).2.1
  case unregister => exact (Cache.cascading_frame.unregister c l).2.1
  all_goals rfl

theorem tracks_of_run (b : Behaviour) (tracks : Bool) (clock : Nat) (events : List Event) :
    ((World.new tracks clock).run b events).cache.tracks = tracks :=
  World.run_rel (R := fun c d ↦ d.tracks = c.tracks) (fun _ ↦ rfl) (fun h₁ h₂ ↦ h₂.trans h₁)
    Piece.tracks _ events

section Run

variable {tracks : Bool} {clock : Nat} {events : List Event} {w : World} {id : CallId} {n : String}
  (hw : w = (World.new tracks clock).run b events) (hknows : w.knows id)

include hw hknows in
/-- **A call that returns without an error after waiting has been told the schemas** of its store,
and has left the store subscribed and dated. -/
theorem subscribed_of_returns {e : Event} {a : Answer} (hserves : w.Serves id n)
    (hreturns : w.Returns b e id (.ok a)) :
    (w.step b e).cache.phase = .started ∧ (w.step b e).cache.stores.get? n ≠ none ∧
    (w.step b e).cache.placements.get? n ≠ none ∧
    ∃ source s wantsRecord d, e = .answer id source ∧
      w.task? id = some (.refresh n (.schemas s) wantsRecord) ∧ source.schemas n = .ok d ∧
      (w.step b e).cache.schemas.get? n = some d ∧
      (w.step b e).cache.freshness.last? n =
        if tracks then some (w.step b e).cache.clock else none := by
  obtain ⟨source, s, wantsRecord, d, he, ht, hd, hphase, hin, hcache⟩ :=
    hreturns.of_serves hserves hknows
  have hu : w.step b e = (World.new tracks clock).run b (events ++ [e]) := by
    rw [World.run_concat, hw]
  have htracking : w.cache.Tracking := hw ▸ run_tracking b tracks clock events
  obtain ⟨hphase', hstores, hschemas, htime, hreading⟩ :=
    Cache.refreshed_file hphase hin htracking.off d
  rw [← hcache] at hphase' hstores hschemas htime hreading
  have hin' : (w.step b e).cache.stores.get? n ≠ none := by rwa [hstores]
  have hplaced : (w.step b e).cache.placements.get? n ≠ none := by
    rw [hu] at hin' ⊢
    exact placement_of_run hin'
  have htracks : (w.step b e).cache.tracks = tracks := by
    rw [hu]
    exact tracks_of_run b tracks clock _
  refine ⟨hphase', hin', hplaced, source, s, wantsRecord, d, he, ht, hd, hschemas, ?_⟩
  rw [htime, ← hreading, Cache.reading, htracks]

include hw hknows in
/-- **A call whose store has been taken out is refused**: at once, or by any answer if it waits. -/
theorem refused_of_removed {p : Placement} {wantsRecord : Bool} {source : Source}
    {fetched r : Store} {between : List Event} {newer older : List Entry}
    (ht : w.task? id = some (.refresh n (.record p) wantsRecord))
    (hjournal : ((w.step b (.answer id source)).run b between).cache.journal =
      newer ++ .removed r ::
        (older ++ .installed (w.cache.stores.get? n) fetched.completed p :: w.cache.journal))
    (hr : r.name = n) (hnewer : ∀ previous s p, .installed previous s p ∈ newer → s.name ≠ n) :
    let u := (w.step b (.answer id source)).run b between
    (between = [] → (∃ err, u.outcomes.lookup id = some (.error err)) ∧ u.cache.shelf n = .bare) ∧
    ∀ t source', u.task? id = some t →
      (∃ err, (u.step b (.answer id source')).outcomes.lookup id = some (.error err)) ∧
        (u.step b (.answer id source')).cache.shelf n = .bare := by
  intro u
  have hu : u = (World.new tracks clock).run b (events ++ .answer id source :: between) := by
    rw [World.run_append, ← hw, World.run_cons]
  have hsince : (w.run b (.answer id source :: between)).cache.journal = newer ++ .removed r ::
      ((older ++ [.installed (w.cache.stores.get? n) fetched.completed p]) ++
        w.cache.journal) := by
    rw [List.append_assoc]
    exact hjournal
  have hnamed : w.cache.Named := hw ▸ named_of_run b tracks clock events
  have hout : u.cache.stores.get? n = none := by
    show (w.run b (.answer id source :: between)).cache.stores.get? n = none
    exact World.stores_of_removed hnamed hsince hr hnewer
  have hbare : u.cache.shelf n = .bare := by
    rw [hu] at hout ⊢
    exact shelf_of_run hout
  have hstep := World.step_answer_record (b := b) ht source
  refine ⟨?_, fun t source' hwaits ↦ ?_⟩
  · rintro rfl
    rcases hstep with ⟨s, -, hin⟩ | ⟨-, hrefused⟩
    · exact absurd hout hin
    · exact ⟨hrefused, hbare⟩
  · have hfinishes : (w.step b (.answer id source)).Finishes id n := by
      intro t ht'
      rcases hstep with ⟨s, hwaits', -⟩ | ⟨hnone, -⟩
      · rw [hwaits'] at ht'
        exact ⟨s, wantsRecord, (Option.some.inj ht').symm⟩
      · rw [hnone] at ht'
        cases ht'
    obtain ⟨hrefused, hcache⟩ :=
      (hfinishes.run (World.step_knows hknows _) between).refused hwaits hout source'
    exact ⟨hrefused, hcache ▸ hbare⟩

end Run

/-- **A call that succeeds leaves its store subscribed, and a call whose store has been taken out
does not succeed.** The call `id` to subscribe or to refresh the store `n` is made after the events
`before`, and whatever happens from then on, callbacks and other calls for `n` included:

* When the call returns without an error, the cache is in use and has the record and the placement
  of `n`. Unless it is a subscription that has found `n` subscribed, the event is the answer to its
  question about the schemas, the schema set in the cache is that answer, and `n` has been refreshed
  by the reading of the clock, if refreshes are reported.
* Let the call be told the record of `n`, which it installs, and let `n` be taken out afterwards and
  not be installed again by the end of the events `between`. If that has happened as the record was
  installed, then the call has been refused, and if the call waits it is refused by any answer. In
  either case the cache has nothing of `n`. -/
theorem success_of_run (b : Behaviour) (tracks : Bool) (clock : Nat) (before : List Event)
    (id : CallId) (n : String) (op : Operation) :
    let v := (World.new tracks clock).run b before
    v.knows id = false → (op = .subscribe n ∨ op = .refresh n) →
    (∀ rest earlier e a, .call id op :: rest = earlier ++ [e] →
      (v.run b earlier).Returns b e id (.ok a) →
      let u := (v.run b earlier).step b e
      u.cache.phase = .started ∧ u.cache.stores.get? n ≠ none ∧
      u.cache.placements.get? n ≠ none ∧
      ((op = .subscribe n ∧ earlier = [] ∧ v.cache.stores.get? n ≠ none) ∨
        ∃ source s wantsRecord d, e = .answer id source ∧
          (v.run b earlier).task? id = some (.refresh n (.schemas s) wantsRecord) ∧
          source.schemas n = .ok d ∧ u.cache.schemas.get? n = some d ∧
          u.cache.freshness.last? n = if tracks then some u.cache.clock else none)) ∧
    (∀ earlier p wantsRecord source fetched between newer r older,
      let w := (v.step b (.call id op)).run b earlier
      let u := (w.step b (.answer id source)).run b between
      w.task? id = some (.refresh n (.record p) wantsRecord) →
      source.record n p.cluster = .ok fetched →
      u.cache.journal = newer ++ .removed r ::
        (older ++ .installed (w.cache.stores.get? n) fetched.completed p :: w.cache.journal) →
      r.name = n → (∀ previous s p, .installed previous s p ∈ newer → s.name ≠ n) →
      (between = [] → (∃ err, u.outcomes.lookup id = some (.error err)) ∧
        u.cache.shelf n = .bare) ∧
      ∀ t source', u.task? id = some t →
        (∃ err, (u.step b (.answer id source')).outcomes.lookup id = some (.error err)) ∧
          (u.step b (.answer id source')).cache.shelf n = .bare) := by
  intro v hnew hop
  have hknows : (v.step b (.call id op)).knows id := World.knows_step_call hnew
  have hserves : (v.step b (.call id op)).Serves id n := World.serves_step_call hnew hop
  have hrun : ∀ events, v.run b events = (World.new tracks clock).run b (before ++ events) :=
    fun events ↦ (World.run_append _ before events).symm
  constructor
  · intro rest earlier e a hmade hreturns u
    rcases earlier with - | ⟨e', earlier⟩
    · -- The call returns as it is made, because it has found the store subscribed.
      obtain ⟨rfl, -⟩ := List.cons_eq_cons.1 hmade
      obtain ⟨rfl, hphase, hin, hcache⟩ := World.Returns.of_call (w := v) hreturns hnew hop
      have hsame : u.cache = v.cache := hcache
      rw [hsame]
      exact ⟨hphase, hin, placement_of_run hin, Or.inl ⟨rfl, rfl, hin⟩⟩
    · obtain ⟨rfl, -⟩ := List.cons_eq_cons.1 hmade
      obtain ⟨hphase, hin, hplaced, hfetched⟩ := subscribed_of_returns (hrun _)
        (World.run_knows hknows earlier) (hserves.run hknows earlier) hreturns
      exact ⟨hphase, hin, hplaced, Or.inr hfetched⟩
  · intro earlier p wantsRecord source fetched between newer r older w u ht _ hjournal hr hnewer
    exact refused_of_removed (hrun (.call id op :: earlier)) (World.run_knows hknows earlier) ht
      hjournal hr hnewer

/-- The store `orders` on the cluster `east`, with a plain record. -/
def Source.orders : Source := .constant (.new "orders" "east") (.new "orders")

/-- A subscription has been told its placement, and waits for the record. -/
def recordAwaited : World :=
  (World.new true 0).run .silent
    [.call 0 .start, .call 1 (.subscribe "orders"), .answer 1 .orders]

/-- The subscription succeeds and is dated if it is told the record and the schemas, and it is
refused if the store is unsubscribed in between. -/
theorem success_of_recordAwaited :
    let w := recordAwaited.step .silent (.answer 1 .orders)
    let u := w.step .silent (.call 2 (.unsubscribe "orders"))
    (w.step .silent (.answer 1 .orders)).cache.stores.get? "orders" ≠ none ∧
    (w.step .silent (.answer 1 .orders)).cache.freshness.last? "orders" = some 0 ∧
    (∃ err, (u.step .silent (.answer 1 .orders)).outcomes.lookup 1 = some (.error err)) ∧
    (u.step .silent (.answer 1 .orders)).cache.shelf "orders" = .bare := by
  intro w u
  obtain ⟨hsuccess, hrefusal⟩ := success_of_run .silent true 0 [.call 0 .start] 1 "orders"
    (.subscribe "orders") (by decide) (Or.inl rfl)
  have hreturns : World.Returns .silent w (.answer 1 .orders) 1 (.ok .done) := by
    constructor <;> rfl
  obtain ⟨-, hin, -, hfound | hfetched⟩ := hsuccess [.answer 1 .orders, .answer 1 .orders,
    .answer 1 .orders] [.call 1 (.subscribe "orders"), .answer 1 .orders, .answer 1 .orders]
    (.answer 1 .orders) .done rfl hreturns
  · cases hfound.2.1
  obtain ⟨-, -, -, -, -, -, -, -, htime⟩ := hfetched
  obtain ⟨-, hrefused⟩ := hrefusal [.answer 1 .orders] (.new "orders" "east") false .orders
    (.new "orders") [.call 2 (.unsubscribe "orders")] [.forgotten "orders"]
    (Store.new "orders").completed [.asked (.schemas "orders")] rfl rfl rfl rfl
    fun previous s p hmem ↦ by cases List.mem_singleton.1 hmem
  have hwaits : u.task? 1 =
      some (.refresh "orders" (.schemas (Store.new "orders").completed) false) := rfl
  obtain ⟨herr, hbare⟩ := hrefused _ .orders hwaits
  exact ⟨hin, htime, herr, hbare⟩

end StoreCache
