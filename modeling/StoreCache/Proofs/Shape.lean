import Mathlib.Data.List.Induction
import StoreCache.Proofs.Flight
import StoreCache.Proofs.Shelf

/-!
# The shape of the cache

Three dictionaries are written by installs, filings, removals and wipes, removals run inside the
notifications of installs and of other removals, and any number of refreshes of one store can be in
flight at once. Between two events the dictionaries fit together all the same: **every shelf is bare
or filled by one refresh** (`Shelf.Sound`).

What "one refresh" means is a statement about the past, so it is made of the run. `Carried` says
that an actor has been told a placement and has had nothing else in flight since; `Brought` says
that such an actor was then told a record on the cluster of that placement. The placement a shelf
holds is the one its record was asked for by, however many other refreshes of the same store were
answered in between.

The invariant needs no case analysis over interleavings: a piece leaves a shelf as it was, or bare,
or filled by the record it installs.
-/

namespace StoreCache

variable {b : Behaviour} {w : World} {e : Event}

/-! ### Completed records -/

theorem Store.partitioner_completed_ne_none (s : Store) : s.completed.partitioner ≠ none :=
  Option.some_ne_none _

theorem Store.zero_le_batchGetLimit_completed (s : Store) : 0 ≤ s.completed.batchGetLimit := by
  unfold completed
  dsimp only
  split
  · decide
  · rename_i h
    exact Int32.not_lt.1 h

/-! ### Where placements and records come from -/

/-- In the run of `events` from `w`, the actor has asked for the placement of the store `name`, has
been told `p`, and has had the record on the cluster of `p` as its open question ever since. -/
def Carried (b : Behaviour) (w : World) (events : List Event) (a : Actor) (name : String)
    (p : Placement) : Prop :=
  ∃ (before between : List Event) (e : Event) (source : Source) (mode : Cache.Install),
    events = before ++ e :: between ∧ e.answer? = some (a, source) ∧
    (w.run b before).flight? a = some ⟨mode, name, .placement⟩ ∧
    source.placement name = .ok (some p) ∧
    ∀ mid, mid <+: between →
      (w.run b (before ++ e :: mid)).flight? a = some ⟨mode, name, .record p⟩

/-- In the run of `events` from `w`, one refresh of the store `name` has brought the placement `p`
and the record `s`, the latter as the answer to its question about the cluster of the former. -/
def Brought (b : Behaviour) (w : World) (events : List Event) (name : String) (p : Placement)
    (s : Store) : Prop :=
  ∃ (before after : List Event) (e : Event) (a : Actor) (source : Source),
    events = before ++ e :: after ∧ Carried b w before a name p ∧ e.answer? = some (a, source) ∧
    source.record name p.cluster = .ok s

theorem Brought.append {events : List Event} {name : String} {p : Placement} {s : Store}
    (h : Brought b w events name p s) (more : List Event) :
    Brought b w (events ++ more) name p s := by
  obtain ⟨before, after, e, a, source, rfl, hcarried, he, hs⟩ := h
  exact ⟨before, after ++ more, e, a, source, by simp, hcarried, he, hs⟩

/-- A refresh comes to wait for a record only with a placement it has just been told, and never with
one that is being deleted. -/
theorem Refresh.waiting_record {mode : Cache.Install} {name : String} {before : Stage}
    {source : Source} {c : Cache} {p : Placement}
    (h : (Refresh.resume b mode name before source c).1 = .waiting (.record p)) :
    before = .placement ∧ source.placement name = .ok (some p) ∧ p.deleting = false := by
  have hresumed := Refresh.resumed b mode name before source c
  generalize Refresh.resume b mode name before source c = next at h hresumed
  cases hresumed with
  | placed hp hstays =>
    cases h
    exact ⟨rfl, hp, hstays⟩
  | installed => cases h
  | refused | unusable | passedOver | lost | absent | done => cases h

/-- **A refresh past its first question has been brought to its stage by an answer**, and has waited
there ever since. -/
theorem answered_of_flight? {tracks : Bool} {clock : Nat} {events : List Event} {a : Actor}
    {f : Flight} (h : ((World.new tracks clock).run b events).flight? a = some f)
    (hstage : f.stage ≠ .placement) :
    ∃ (before between : List Event) (e : Event) (source : Source) (stage : Stage),
      events = before ++ e :: between ∧ e.answer? = some (a, source) ∧
      ((World.new tracks clock).run b before).flight? a = some ⟨f.mode, f.name, stage⟩ ∧
      (Refresh.resume b f.mode f.name stage source
        ((World.new tracks clock).run b before).cache).1 = .waiting f.stage ∧
      ∀ mid, mid <+: between →
        ((World.new tracks clock).run b (before ++ e :: mid)).flight? a = some f := by
  induction events using List.reverseRecOn with
  | nil => cases a <;> cases h
  | append_singleton events e ih =>
    have hnow := h
    rw [World.run_concat] at h
    rcases World.step_flight? h with ⟨hbefore, -⟩ | hbegun | ⟨source, stage, he, hf, hr⟩
    · obtain ⟨before, between, e', source, stage, rfl, he', hf, hr, hwaits⟩ := ih hbefore
      refine ⟨before, between ++ [e], e', source, stage, by simp, he', hf, hr, fun mid hmid ↦ ?_⟩
      rcases List.prefix_concat_iff.1 hmid with rfl | hmid
      · simpa using hnow
      · exact hwaits mid hmid
    · exact absurd hbegun hstage
    · refine ⟨events, [], e, source, stage, rfl, he, hf, hr, fun mid hmid ↦ ?_⟩
      obtain rfl := List.prefix_nil.1 hmid
      exact hnow

/-- **A refresh that waits for a record carries the placement it was told.** -/
theorem carried_of_flight? {tracks : Bool} {clock : Nat} {events : List Event} {a : Actor}
    {mode : Cache.Install} {name : String} {p : Placement}
    (h : ((World.new tracks clock).run b events).flight? a = some ⟨mode, name, .record p⟩) :
    Carried b (World.new tracks clock) events a name p ∧ p.deleting = false := by
  obtain ⟨before, between, e, source, stage, hevents, he, hf, hr, hwaits⟩ :=
    answered_of_flight? h nofun
  obtain ⟨rfl, hp, hdeleting⟩ := Refresh.waiting_record hr
  exact ⟨⟨before, between, e, source, mode, hevents, he, hf, hp, hwaits⟩, hdeleting⟩

/-! ### Sound shelves -/

/-- A shelf is bare, or it holds a completed record under its own name and a placement in force that
were `brought` together. -/
inductive Shelf.Sound (brought : Placement → Store → Prop) (name : String) : Shelf → Prop
  | bare : Sound brought name .bare
  | filled {s : Store} {p : Placement} (schemas : Option SchemaSet) (hname : s.name = name)
    (hdeleting : p.deleting = false) (hbrought : brought p s) :
    Sound brought name ⟨some s.completed, some p, schemas⟩

namespace Shelf.Sound

variable {brought : Placement → Store → Prop} {name : String} {sh : Shelf}

theorem mono (h : sh.Sound brought name) {brought' : Placement → Store → Prop}
    (hb : ∀ p s, brought p s → brought' p s) : sh.Sound brought' name := by
  cases h with
  | bare => exact .bare
  | filled schemas hname hdeleting hbrought =>
    exact .filled schemas hname hdeleting (hb _ _ hbrought)

/-- Schemas may come to a record that is there. -/
theorem withSchemas (h : sh.Sound brought name) (hs : sh.store ≠ none) (d : Option SchemaSet) :
    { sh with schemas := d }.Sound brought name := by
  cases h with
  | bare => exact absurd rfl hs
  | filled _ hname hdeleting hbrought => exact .filled d hname hdeleting hbrought

/-- What a sound shelf says about the dictionaries. -/
theorem cases {c : Cache} {n : String} (h : (c.shelf n).Sound brought n) :
    (c.stores.get? n = none ∧ c.placements.get? n = none ∧ c.schemas.get? n = none) ∨
    ∃ s p, c.stores.get? n = some s.completed ∧ c.placements.get? n = some p ∧ s.name = n ∧
      p.deleting = false ∧ brought p s := by
  generalize hsh : c.shelf n = sh at h
  cases h with
  | bare =>
    exact Or.inl ⟨congrArg Shelf.store hsh, congrArg Shelf.placement hsh, congrArg Shelf.schemas hsh⟩
  | filled schemas hname hdeleting hbrought =>
    exact Or.inr ⟨_, _, congrArg Shelf.store hsh, congrArg Shelf.placement hsh, hname, hdeleting,
      hbrought⟩

end Shelf.Sound

/-- Each shelf is as it was, or bare, if nothing writes on it. -/
theorem Cache.Thinned.sound {brought : String → Placement → Store → Prop} {c d : Cache}
    (h : Cache.Thinned c d) (hc : ∀ n, (c.shelf n).Sound (brought n) n) (n : String) :
    (d.shelf n).Sound (brought n) n := by
  rcases h n with h | h <;> rw [h]
  · exact hc n
  · exact .bare

/-- **A piece keeps shelves sound**, if what answers bring counts as brought. -/
theorem Piece.sound {brought : String → Placement → Store → Prop} {c d : Cache}
    (hpiece : Piece b w e c d)
    (hanswer : ∀ a source mode name p s, e.answer? = some (a, source) →
      w.flight? a = some ⟨mode, name, .record p⟩ → source.record name p.cluster = .ok s →
        p.deleting = false ∧ brought name p s)
    (hc : ∀ n, (c.shelf n).Sound (brought n) n) (n : String) : (d.shelf n).Sound (brought n) n := by
  cases hpiece with
  | ask => exact hc n
  | @install a source mode name p s he hf hs hname =>
    obtain ⟨hdeleting, hbrought⟩ := hanswer a source mode name p s he hf hs
    -- Nothing comes before an install in its event, so the shelves are those of `w`.
    rcases Cache.shelf_install (b := b) mode p s w.cache n with h | h | ⟨hn, h⟩ <;> rw [h]
    · exact hc n
    · exact .bare
    · subst hn hname
      exact .filled _ rfl hdeleting hbrought
  | @file _ a source name data =>
    rcases Cache.shelf_file name data c n with h | ⟨rfl, hstore, h⟩ <;> rw [h]
    · exact hc n
    · exact (hc n).withSchemas hstore _
  | refreshed => simpa using hc n
  | remove _ name => exact (Cache.cascading_thinned.remove name c).sound hc n
  | wipe => exact .bare
  | start => exact hc n
  | close => exact hc n
  | register => simpa using hc n
  | unregister => simpa using hc n
  | clock => exact hc n

/-- **Every shelf is sound after every run.** -/
theorem run_sound (b : Behaviour) (tracks : Bool) (clock : Nat) (events : List Event) (n : String) :
    (((World.new tracks clock).run b events).cache.shelf n).Sound
      (Brought b (World.new tracks clock) events n) n := by
  induction events using List.reverseRecOn generalizing n with
  | nil => exact .bare
  | append_singleton events e ih =>
    rw [World.run_concat]
    refine World.step_rel (b := b) (e := e)
      (R := fun c d ↦
        (∀ n, (c.shelf n).Sound (Brought b (World.new tracks clock) (events ++ [e]) n) n) →
          ∀ n, (d.shelf n).Sound (Brought b (World.new tracks clock) (events ++ [e]) n) n)
      (fun _ h ↦ h) (fun h₁ h₂ h ↦ h₂ (h₁ h)) (fun hp h ↦ hp.sound ?_ h)
      (fun n ↦ (ih n).mono fun p s h ↦ h.append [e]) n
    intro a source mode name p s he hf hs
    obtain ⟨hcarried, hdeleting⟩ := carried_of_flight? hf
    exact ⟨hdeleting, events, [], e, a, source, rfl, hcarried, he, hs⟩

/-- A store that is not subscribed after a run has left nothing behind. -/
theorem shelf_of_run {tracks : Bool} {clock : Nat} {events : List Event} {n : String}
    (hout : ((World.new tracks clock).run b events).cache.stores.get? n = none) :
    ((World.new tracks clock).run b events).cache.shelf n = .bare := by
  rcases (run_sound b tracks clock events n).cases with ⟨hstore, hplacement, hschemas⟩ | hfilled
  · show Shelf.mk _ _ _ = _
    rw [hstore, hplacement, hschemas]
    rfl
  · obtain ⟨s, -, hstore, -⟩ := hfilled
    rw [hout] at hstore
    cases hstore

/-- A store that is subscribed after a run is placed. -/
theorem placement_of_run {tracks : Bool} {clock : Nat} {events : List Event} {n : String}
    (hin : ((World.new tracks clock).run b events).cache.stores.get? n ≠ none) :
    ((World.new tracks clock).run b events).cache.placements.get? n ≠ none := by
  rcases (run_sound b tracks clock events n).cases with ⟨hout, -⟩ | ⟨-, p, -, hp, -⟩
  · exact absurd hout hin
  · rw [hp]
    exact Option.some_ne_none p

/-! ### The shape -/

/-- **The shape of the cache after every run**, whatever the sources answer, whatever the listeners
do, and wherever tasks are given up.

Records and placements have the same names and schema sets have no others; each record is completed
and stands under its own name; each placement is in force, and one refresh has brought it and the
record next to it. -/
theorem shape_of_run (b : Behaviour) (tracks : Bool) (clock : Nat) (events : List Event) :
    let c := ((World.new tracks clock).run b events).cache
    (∀ n, c.stores.contains n = c.placements.contains n) ∧
    (∀ n, c.schemas.contains n = true → c.stores.contains n = true) ∧
    (∀ n s, c.stores.get? n = some s →
      s.name = n ∧ s.partitioner ≠ none ∧ 0 ≤ s.batchGetLimit) ∧
    (∀ n s p, c.stores.get? n = some s → c.placements.get? n = some p →
      p.deleting = false ∧
      ∃ fetched, s = fetched.completed ∧
        Brought b (World.new tracks clock) events n p fetched) := by
  intro c
  have hsound : ∀ n, (c.stores.get? n = none ∧ c.placements.get? n = none ∧
      c.schemas.get? n = none) ∨ ∃ s p, c.stores.get? n = some s.completed ∧
        c.placements.get? n = some p ∧ s.name = n ∧ p.deleting = false ∧
        Brought b (World.new tracks clock) events n p s :=
    fun n ↦ (run_sound b tracks clock events n).cases
  refine ⟨fun n ↦ ?_, fun n h ↦ ?_, fun n s hs ↦ ?_, fun n s p hs hp ↦ ?_⟩
  · rcases hsound n with ⟨hs, hp, -⟩ | ⟨s, p, hs, hp, -⟩ <;> simp [Dict.contains, hs, hp]
  · rcases hsound n with ⟨-, -, hd⟩ | ⟨s, p, hs, -⟩
    · simp [Dict.contains, hd] at h
    · simp [Dict.contains, hs]
  · rcases hsound n with ⟨hnone, -⟩ | ⟨fetched, p, hfetched, -, rfl, -⟩
    · rw [hs] at hnone
      cases hnone
    · rw [hs] at hfetched
      cases hfetched
      exact ⟨rfl, fetched.partitioner_completed_ne_none, fetched.zero_le_batchGetLimit_completed⟩
  · rcases hsound n with ⟨hnone, -⟩ | ⟨fetched, q, hfetched, hq, -, hdeleting, hbrought⟩
    · rw [hs] at hnone
      cases hnone
    · rw [hs] at hfetched
      rw [hp] at hq
      cases hfetched
      cases hq
      exact ⟨hdeleting, fetched, rfl, hbrought⟩

end StoreCache
