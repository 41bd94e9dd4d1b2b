import StoreCache.Proofs.Call
import StoreCache.Proofs.Shape
import StoreCache.Proofs.Telling
import StoreCache.Proofs.Tracking

/-!
# Stores that stay away

A sweep, a periodic run or a question about schemas may come back to a store long after it has been
unsubscribed: it has been waiting for an answer and knows nothing of it. **None of them brings the
store back.** A sweep only replaces the record that is there, schemas are filed only next to a
record, and a refresh is reported only after its schemas have been filed.

What brings a store in is a call to subscribe or to refresh it. So a store that is not subscribed,
and that no such call is in flight for, stays away until one is made (`absence_of_run`): nothing of
it comes into the cache, not even for the time of a callback, and no listener is told anything about
it.
-/

namespace StoreCache

/-- An entry that concerns the store `n`: its record or its schemas come or go, its refresh is
reported, or a callback is about it or finds it subscribed. -/
def Entry.Concerns (n : String) : Entry → Prop
  | .installed _ s _ | .removed s => s.name = n
  | .filed name _ | .refreshed name _ => name = n
  | .called _ _ s found => s.name = n ∨ found.stores.get? n ≠ none
  | .returned _ _ s _ => s.name = n
  | .asked _ | .registered _ | .unregistered _ | .forgotten _ => False

variable {b : Behaviour} {w : World} {e : Event} {n : String}

namespace Cache

variable {c d : Cache}

/-- The cache has nothing of the store `n`, and no record of that name under another one. -/
structure Lacks (n : String) (c : Cache) : Prop where
  shelf : c.shelf n = .bare
  time : c.freshness.last? n = none
  unnamed : ∀ m s, c.stores.get? m = some s → s.name ≠ n

theorem Lacks.store (h : c.Lacks n) : c.stores.get? n = none := congrArg Shelf.store h.shelf

theorem Lacks.of_eq (h : c.Lacks n) (hshelf : d.shelf n = c.shelf n)
    (htime : d.freshness.last? n = c.freshness.last? n)
    (hstores : ∀ m s, d.stores.get? m = some s → c.stores.get? m = some s) : d.Lacks n where
  shelf := hshelf.trans h.shelf
  time := htime.trans h.time
  unnamed m s hs := h.unnamed m s (hstores m s hs)

/-- A store that the cache lacks in `c` it lacks in `d`, and nothing written in between concerns
the store. -/
def Avoids (n : String) (c d : Cache) : Prop :=
  c.Lacks n → d.Lacks n ∧ Wrote (¬ ·.Concerns n) c d

theorem Avoids.trans {c d e : Cache} (h₁ : Avoids n c d) (h₂ : Avoids n d e) : Avoids n c e := by
  intro hc
  obtain ⟨hd, hwrote₁⟩ := h₁ hc
  obtain ⟨he, hwrote₂⟩ := h₂ hd
  exact ⟨he, hwrote₁.trans hwrote₂⟩

theorem Avoids.of_eq (hjournal : d.journal = c.journal) (h : c.Lacks n → d.Lacks n) :
    Avoids n c d :=
  fun hc ↦ ⟨h hc, .of_eq hjournal⟩

theorem Avoids.of_cons {x : Entry} (hjournal : d.journal = x :: c.journal)
    (hx : c.Lacks n → ¬ x.Concerns n) (h : c.Lacks n → d.Lacks n) : Avoids n c d :=
  fun hc ↦ ⟨h hc, .of_cons hjournal (hx hc)⟩

/-- Writing down something that does not concern the store. -/
theorem avoids_note {x : Entry} (hx : c.Lacks n → ¬ x.Concerns n) : Avoids n c (c.note x) :=
  .of_cons rfl hx fun hc ↦ hc.of_eq rfl rfl fun _ _ hs ↦ hs

theorem steady_avoids (n : String) : Steady (Avoids n) where
  refl c hc := ⟨hc, .of_eq rfl⟩
  trans := .trans
  register c l := by
    unfold Cache.register
    split
    · exact .of_eq rfl id
    · exact .of_cons rfl (fun _ ↦ id) fun hc ↦ hc.of_eq rfl rfl fun _ _ hs ↦ hs
  unregister c l := by
    unfold Cache.unregister
    split
    · exact .of_cons rfl (fun _ ↦ id) fun hc ↦ hc.of_eq rfl rfl fun _ _ hs ↦ hs
    · exact .of_eq rfl id

/-! ### Cascades -/

section Callbacks

variable {unsubscribe : String → Cache → Cache}
  (hU : ∀ name c, Avoids n c (unsubscribe name c))

include hU

/-- A callback about another store. -/
theorem avoids_call (event : StoreEvent) {s : Store} (hs : s.name ≠ n) (l : ListenerId)
    (c : Cache) : Avoids n c (call unsubscribe b event s l c).2 := by
  have hcalled : Avoids n c (c.note (.called l event s ⟨c.stores, c.totalQuota⟩)) :=
    avoids_note fun hc hconcerns ↦ hconcerns.elim hs fun hin ↦ hin hc.store
  have hrun := (steady_avoids n).run hU (b c.journal l event s)
    (c.note (.called l event s ⟨c.stores, c.totalQuota⟩)) []
  exact (hcalled.trans hrun).trans (avoids_note fun _ hconcerns ↦ hs hconcerns)

theorem avoids_callAll (event : StoreEvent) {s : Store} (hs : s.name ≠ n) (ls : List ListenerId) :
    ∀ c, Avoids n c (callAll unsubscribe b event s ls c).2 := by
  induction ls with
  | nil => exact (steady_avoids n).refl
  | cons l ls ih =>
    intro c
    exact (avoids_call hU event hs l c).trans (ih _)

end Callbacks

/-- A store without a time has none after another, or itself, is forgotten. -/
theorem Lacks.time_forgotten (h : c.Lacks n) (name : String) :
    (if c.tracks then c.freshness.forget name else c.freshness).last? n = none := by
  split
  · show (c.freshness.times.erase name).get? n = none
    rw [Dict.get?_erase]
    split
    · rfl
    · exact h.time
  · exact h.time

theorem avoids_reportForgotten (name : String) (c : Cache) :
    Avoids n c (c.reportForgotten name) := by
  rw [reportForgotten_eq]
  exact .of_cons rfl (fun _ ↦ id) fun hc ↦
    hc.of_eq rfl ((hc.time_forgotten name).trans hc.time.symm) fun _ _ hs ↦ hs

theorem avoids_dropRest (name : String) (c : Cache) : Avoids n c (c.dropRest name) := by
  refine .of_eq rfl fun hc ↦ hc.of_eq ?_ rfl fun _ _ hs ↦ hs
  rw [shelf_dropRest, hc.shelf]
  split <;> rfl

theorem avoids_takeOut {name : String} {s : Store} (hs : c.stores.get? name = some s) :
    Avoids n c (c.takeOut name s) := by
  intro hc
  have hshelf := shelf_takeOut c name s n
  rw [takeOut_eq] at hshelf ⊢
  refine ⟨⟨?_, hc.time_forgotten name, ?_⟩, [.forgotten name, .removed s], rfl, ?_⟩
  · rw [hshelf, hc.shelf]
    split <;> rfl
  · intro m r hr
    have herase : (c.stores.erase name).get? m = some r := hr
    rw [Dict.get?_erase] at herase
    split at herase
    · cases herase
    · exact hc.unnamed m r herase
  · -- The record taken out is not one of `n`, since the cache has none.
    intro x hx
    rcases List.mem_pair.1 hx with rfl | rfl
    · exact id
    · exact hc.unnamed name s hs

theorem avoids_remove (name : String) (c : Cache) : Avoids n c (c.remove b name) := by
  refine removeWithin_rel (steady_avoids n).refl (fun c name _ ↦ ?_) (fun U hU c name s hs ↦ ?_)
    _ name c
  · exact (avoids_reportForgotten name c).trans (avoids_dropRest name _)
  · intro hc
    have htold := avoids_callAll (b := b) hU .deleted (hc.unnamed name s hs)
      (c.takeOut name s).roster (c.takeOut name s)
    exact (((avoids_takeOut hs).trans htold).trans (avoids_dropRest name _)) hc

theorem avoids_removeAll (names : List String) : ∀ c : Cache, Avoids n c (c.removeAll b names) := by
  induction names with
  | nil => exact (steady_avoids n).refl
  | cons name names ih =>
    intro c
    exact (avoids_remove name c).trans (ih _)

theorem avoids_wipe (names : List String) (c : Cache) : Avoids n c (c.wipe b names) :=
  (avoids_removeAll names c).trans (.of_eq rfl fun h ↦ ⟨rfl, h.time, fun _ _ hs ↦ nomatch hs⟩)

/-! ### Installing and filing -/

theorem avoids_put (p : Placement) {s : Store} (hs : s.name ≠ n) (c : Cache) :
    Avoids n c (c.put p s) := by
  refine .of_cons rfl (fun _ ↦ hs) fun hc ↦ ⟨?_, hc.time, ?_⟩
  · rw [shelf_put, if_neg (Ne.symm hs), hc.shelf]
  · intro m r hr
    have hinsert : (c.stores.insert s.name s).get? m = some r := hr
    rw [Dict.get?_insert] at hinsert
    split at hinsert
    · cases hinsert
      exact hs
    · exact hc.unnamed m r hinsert

/-- **An install that only replaces leaves the store away**, and so does one of another store. -/
theorem avoids_install {mode : Install} {s : Store} (h : s.name = n → mode = .replace)
    (p : Placement) (c : Cache) : Avoids n c (c.install b mode p s).2 := by
  intro hc
  have hi := installation (b := b) mode p s c
  generalize c.install b mode p s = r at hi ⊢
  rcases hi with _ | _ | ⟨-, hsame⟩ | ⟨-, -, hmode⟩
  · exact (steady_avoids n).refl c hc
  · exact (steady_avoids n).refl c hc
  · have hs : s.completed.name ≠ n := hc.unnamed _ _ hsame
    exact avoids_put p hs c hc
  · have hs : s.completed.name ≠ n := by
      rintro rfl
      have hupsert : mode = .upsert := hmode hc.store
      rw [h rfl] at hupsert
      cases hupsert
    have hadded : ∀ (c : Cache) delta, Avoids n c (c.addQuota delta) := fun c _ ↦
      .of_eq rfl fun hc ↦ hc.of_eq rfl rfl fun _ _ hs ↦ hs
    exact (((avoids_put p hs c).trans (hadded _ _)).trans
      (avoids_callAll avoids_remove .changed hs _ _)) hc

theorem avoids_file (name : String) (data : SchemaSet) (c : Cache) :
    Avoids n c (c.file name data).2 := by
  intro hc
  have hf := filing name data c
  generalize c.file name data = r at hf ⊢
  rcases hf with _ | _ | ⟨-, hin⟩
  · exact (steady_avoids n).refl c hc
  · exact (steady_avoids n).refl c hc
  · have hname : name ≠ n := by
      rintro rfl
      rw [hc.store] at hin
      cases hin
    refine ⟨hc.of_eq ?_ rfl fun _ _ hs ↦ hs, .of_cons rfl hname⟩
    simp [shelf, note, Dict.get?_insert, Ne.symm hname]

theorem avoids_reportRefreshed {name : String} (hs : c.stores.get? name ≠ none) :
    Avoids n c (c.reportRefreshed name) := by
  intro hc
  have hname : name ≠ n := by
    rintro rfl
    exact hs hc.store
  rw [reportRefreshed_eq]
  refine ⟨hc.of_eq rfl ?_ fun _ _ hs ↦ hs, .of_cons rfl hname⟩
  show (if c.tracks then c.freshness.refreshed name c.clock else c.freshness).last? n = _
  split
  · show (c.freshness.times.insert name c.clock).get? n = _
    rw [Dict.get?_insert, if_neg (Ne.symm hname)]
    rfl
  · rfl

end Cache

/-! ### Events -/

/-- **No piece brings the store in** but the install of a call to subscribe or to refresh it. -/
theorem Piece.avoids {c d : Cache} (h : Piece b w e c d)
    (hunsought : ∀ a stage, w.flight? a ≠ some ⟨.upsert, n, stage⟩) : Cache.Avoids n c d := by
  cases h with
  | ask => exact Cache.avoids_note fun _ ↦ id
  | @install a source mode name p s he hf hs hname =>
    refine Cache.avoids_install (fun hn ↦ ?_) p w.cache
    obtain rfl : name = n := hname.symm.trans hn
    rcases mode with _ | _
    · exact absurd hf (hunsought a _)
    · rfl
  | file => exact Cache.avoids_file _ _ _
  | refreshed _ _ _ hs => exact Cache.avoids_reportRefreshed hs
  | remove => exact Cache.avoids_remove _ _
  | wipe => exact Cache.avoids_wipe _ _
  | register => exact (Cache.steady_avoids n).register _ _
  | unregister => exact (Cache.steady_avoids n).unregister _ _
  | start | close | clock => exact .of_eq rfl fun hc ↦ hc.of_eq rfl rfl fun _ _ hs ↦ hs

namespace World

/-- No call to subscribe the store `n` or to refresh it is in flight. -/
def Unsought (n : String) (w : World) : Prop :=
  ∀ id stage wantsRecord, w.task? id ≠ some (.refresh n stage wantsRecord)

theorem Unsought.flight? (h : w.Unsought n) (a : Actor) (stage : Stage) :
    w.flight? a ≠ some ⟨.upsert, n, stage⟩ := by
  intro hf
  rcases a with id | _
  · obtain ⟨t, ht, htf⟩ := Option.bind_eq_some_iff.1 hf
    rcases t with ⟨name, stage', wantsRecord⟩ | _ | _ | _
    · cases htf
      exact h id stage wantsRecord ht
    all_goals cases htf
  · rcases hb : w.background with - | - | s | - <;> rw [World.flight?, hb] at hf <;> cases hf

/-- Only subscribing and refreshing come to wait in a refresh of one store. -/
theorem seeks_of_task {op : Operation} {stage : Stage} {wantsRecord : Bool}
    (h : Task.Of op (.refresh n stage wantsRecord)) : op = .subscribe n ∨ op = .refresh n := by
  rcases op with _ | _ | name | _ | name | _ | _ | _ | _
  all_goals try exact h.elim
  · cases h
  · obtain ⟨rfl, -⟩ := Task.refresh.inj h
    exact Or.inl rfl
  · obtain ⟨rfl, -⟩ := Task.refresh.inj h
    exact Or.inr rfl
  · obtain ⟨s, hs, -⟩ := h
    cases hs
  · obtain ⟨record, hrecord⟩ := h
    cases hrecord

/-- A call that waits in a refresh of one store after an answer has waited in it before. -/
theorem answer_task?_refresh {id : CallId} {source : Source} {t : Task} {stage : Stage}
    {wantsRecord : Bool} (hclear : ∀ order, t ≠ .clear order)
    (h : (w.answer b id source t).task? id = some (.refresh n stage wantsRecord)) :
    ∃ before, t = .refresh n before wantsRecord := by
  rcases t with ⟨name, before, wants⟩ | s | _ | _
  · have hd := dealt_continueRefresh w id name wants
      (Refresh.resume b .upsert name before source w.cache)
    obtain ⟨stage', -, heq⟩ := hd.task?_self h
    cases heq
    exact ⟨before, rfl⟩
  · have hd := dealt_continueSweep w id (s.resume b source w.cache)
    obtain ⟨s', -, heq⟩ := hd.task?_self h
    cases heq
  · rw [World.answer, task?_finish, if_pos rfl] at h
    cases h
  · exact absurd rfl (hclear _)

/-- A call that waits in a refresh of one store has waited in it before, or has just been made. -/
theorem step_task?_refresh {id : CallId} {stage : Stage} {wantsRecord : Bool}
    (h : (w.step b e).task? id = some (.refresh n stage wantsRecord)) :
    (∃ before, w.task? id = some (.refresh n before wantsRecord)) ∨
      e = .call id (.subscribe n) ∨ e = .call id (.refresh n) := by
  rcases turn b w e with ⟨htasks, -, -, -⟩ | ⟨i, op, rfl, -, hu⟩ |
    ⟨i, source, t, rfl, ht, hclear, hu⟩ | ⟨i, t, rfl, -, hu⟩ | ⟨i, order, rfl, -, hu⟩
  · rw [task?, htasks] at h
    exact Or.inl ⟨stage, h⟩
  · have hd := dealt_call (b := b) w i op
    rw [← hu] at hd
    by_cases hi : id = i
    · subst hi
      exact Or.inr ((seeks_of_task (hd.task?_self h)).imp (congrArg _) (congrArg _))
    · exact Or.inl ⟨stage, hd.task?_of_ne hi ▸ h⟩
  · by_cases hi : id = i
    · subst hi
      obtain ⟨before, rfl⟩ := answer_task?_refresh hclear (hu ▸ h)
      exact Or.inl ⟨before, ht⟩
    · have hd := (dealt_answer (b := b) w i source t).resolve_left (not_exists.2 hclear)
      rw [← hu] at hd
      exact Or.inl ⟨stage, hd.task?_of_ne hi ▸ h⟩
  · rw [hu, task?_giveUp] at h
    split at h
    · cases h
    · exact Or.inl ⟨stage, h⟩
  · have hd := dealt_finishClear (b := b) w i order
    rw [← hu] at hd
    by_cases hi : id = i
    · subst hi
      exact (hd.task?_self h).elim
    · exact Or.inl ⟨stage, hd.task?_of_ne hi ▸ h⟩

theorem Unsought.step (h : w.Unsought n)
    (he : ∀ id, e ≠ .call id (.subscribe n) ∧ e ≠ .call id (.refresh n)) :
    (w.step b e).Unsought n := by
  intro id stage wantsRecord ht
  rcases step_task?_refresh ht with ⟨before, hbefore⟩ | hsubscribe | hrefresh
  · exact h id before wantsRecord hbefore
  · exact (he id).1 hsubscribe
  · exact (he id).2 hrefresh

/-- **What is away and unsought stays away**, until a call is made for it. -/
theorem Unsought.run (h : w.Unsought n) (events : List Event)
    (hevents : ∀ id, .call id (.subscribe n) ∉ events ∧ .call id (.refresh n) ∉ events) :
    Cache.Avoids n w.cache (w.run b events).cache := by
  induction events generalizing w with
  | nil => exact (Cache.steady_avoids n).refl _
  | cons e events ih =>
    have he : ∀ id, e ≠ .call id (.subscribe n) ∧ e ≠ .call id (.refresh n) := by
      intro id
      exact ⟨fun h ↦ (hevents id).1 (h ▸ List.mem_cons_self),
        fun h ↦ (hevents id).2 (h ▸ List.mem_cons_self)⟩
    have hstep : Cache.Avoids n w.cache (w.step b e).cache :=
      step_rel (Cache.steady_avoids n).refl .trans fun hp ↦ hp.avoids h.flight?
    exact hstep.trans (ih (h.step he) fun id ↦
      ⟨fun hmem ↦ (hevents id).1 (List.mem_cons_of_mem e hmem),
        fun hmem ↦ (hevents id).2 (List.mem_cons_of_mem e hmem)⟩)

end World

/-! ### After a run -/

/-- After a run the cache lacks every store that is not subscribed. -/
theorem lacks_of_run {tracks : Bool} {clock : Nat} {events : List Event}
    (hout : ((World.new tracks clock).run b events).cache.stores.get? n = none) :
    ((World.new tracks clock).run b events).cache.Lacks n where
  shelf := shelf_of_run hout
  time := (run_tracking b tracks clock events).subscribed n hout
  unnamed m s hs := by
    rintro rfl
    have hname : s.name = m := named_of_run b tracks clock events m s hs
    rw [hname, hs] at hout
    cases hout

/-- **Nothing in the background brings a store back.** After a run in which the store `n` has come
not to be subscribed, with no call to subscribe or to refresh it in flight, the cache has nothing of
`n` whatever happens next, and nothing that concerns `n` has happened, as long as no such call is
made: not by the sweeps, the periodic runs and the questions about schemas that were waiting then,
nor by those that begin later. -/
theorem absence_of_run (b : Behaviour) (tracks : Bool) (clock : Nat) (before after : List Event)
    (n : String) :
    let w := (World.new tracks clock).run b before
    let u := w.run b after
    w.cache.stores.get? n = none →
    (∀ id stage wantsRecord, w.task? id ≠ some (.refresh n stage wantsRecord)) →
    (∀ id, .call id (.subscribe n) ∉ after ∧ .call id (.refresh n) ∉ after) →
    u.cache.stores.get? n = none ∧ u.cache.placements.get? n = none ∧
    u.cache.schemas.get? n = none ∧ u.cache.freshness.last? n = none ∧
    ∃ since, u.cache.journal = since ++ w.cache.journal ∧ ∀ e ∈ since, ¬ e.Concerns n := by
  intro w u hout hunsought hafter
  have havoids : Cache.Avoids n w.cache u.cache := World.Unsought.run hunsought after hafter
  obtain ⟨hlacks, hwrote⟩ := havoids (lacks_of_run hout)
  exact ⟨hlacks.store, congrArg Shelf.placement hlacks.shelf, congrArg Shelf.schemas hlacks.shelf,
    hlacks.time, hwrote⟩

/-- The store `orders` is unsubscribed while a sweep waits for its record. -/
def unsubscribedInSweep : List Event :=
  ordersSubscribed ++
    [.call 3 (.sweep []), .answer 3 (.constant (.new "orders" "east") (.new "orders")),
      .call 4 (.unsubscribe "orders")]

/-- The sweep is told the record after all, and another sweep comes and goes. -/
def lateRecord : List Event :=
  [.answer 3 (.constant (.new "orders" "east") (.new "orders")), .call 5 (.sweep [])]

/-- The late record does not come into the cache, and nothing is told of it. -/
theorem absence_of_lateRecord :
    let w := (World.new true 0).run .silent unsubscribedInSweep
    w.cache.stores.get? "orders" = none ∧ (w.task? 3).isSome = true ∧
    (w.run .silent lateRecord).cache.stores.get? "orders" = none ∧
    (w.run .silent lateRecord).cache.placements.get? "orders" = none ∧
    ∃ since, (w.run .silent lateRecord).cache.journal = since ++ w.cache.journal ∧
      ∀ e ∈ since, ¬ e.Concerns "orders" := by
  intro w
  have hout : w.cache.stores.get? "orders" = none := by decide
  have hsweep : (w.task? 3).isSome = true := by decide
  have hunsought (id : CallId) (stage : Stage) (wantsRecord : Bool) :
      w.task? id ≠ some (.refresh "orders" stage wantsRecord) := by
    show List.lookup id [(3, Task.sweep ⟨"orders", .record (.new "orders" "east"), [], .zero⟩)] ≠ _
    rw [List.lookup_cons]
    split
    · rintro ⟨⟩
    · rintro ⟨⟩
  obtain ⟨hstore, hplacement, -, -, hsince⟩ := absence_of_run .silent true 0 unsubscribedInSweep
    lateRecord "orders" hout hunsought fun id ↦ ⟨by simp [lateRecord], by simp [lateRecord]⟩
  exact ⟨hout, hsweep, hstore, hplacement, hsince⟩

end StoreCache
