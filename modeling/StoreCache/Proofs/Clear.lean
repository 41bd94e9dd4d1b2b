import Mathlib.Data.List.Induction
import StoreCache.Proofs.Call
import StoreCache.Proofs.Telling
import StoreCache.Proofs.Tracking

/-!
# Clearing

A clearing call closes the cache at once and empties it later: in between it waits for the periodic
task, and everything that was in flight when it was made goes on. **From the call on the cache only
loses**, whoever comes back to it: an answer that arrives finds the phase changed and installs
nothing, and what sweeps, callers and callbacks still do are removals.

That is a statement about every relation between caches, so it is proved for all of them at once. A
relation is `Sealed` if it survives what is left to happen in a closed cache; every run from a
closed cache then respects it. What has to be known of the journal, the shelves and the emptiness of
the cache are three such relations.

How often listeners are told is no matter of clearing at all. It is the account every run keeps
(`run_told`, `run_recorded`), closed at an instant when nothing is left.
-/

namespace StoreCache

variable {b : Behaviour} {w u : World} {e : Event} {R : Cache → Cache → Prop}

/-! ### Closed caches -/

/-- A relation between caches that survives all that can still happen once the cache is closed. -/
structure Sealed (b : Behaviour) (R : Cache → Cache → Prop) : Prop extends Cache.Steady R where
  close : ∀ c : Cache, R c { c with phase := .cleared }
  ask : ∀ (c : Cache) q, R c (c.ask q)
  clock : ∀ (c : Cache) time, R c { c with clock := time }
  remove : ∀ (c : Cache) name, R c (c.remove b name)
  empty : ∀ c : Cache, c.stores = ∅ →
    R c { c with stores := ∅, placements := ∅, schemas := ∅, totalQuota := 0 }

theorem Sealed.wipe (h : Sealed b R) (order : List String) (c : Cache) :
    R c (c.wipe b (World.visiting order c)) := by
  have hremoveAll : ∀ names (c : Cache), R c (c.removeAll b names) := by
    intro names
    induction names with
    | nil => exact h.refl
    | cons name names ih => exact fun c ↦ h.trans (h.remove c name) (ih _)
  exact h.trans (hremoveAll _ c) (h.empty _ (Cache.stores_removeAll_visiting order c))

/-- A closed cache installs and files nothing, and can be neither started nor closed. -/
theorem Sealed.piece (h : Sealed b R) {c d : Cache} (hphase : c.phase = .cleared)
    (hp : Piece b w e c d) : R c d := by
  have hunusable : c.phase ≠ .started := by
    rw [hphase]
    decide
  cases hp with
  | ask => exact h.ask _ _
  | @install a source mode name p s =>
    -- Only the refusal is left of the ways an install can go.
    have hi := Cache.installation (b := b) mode p s w.cache
    generalize w.cache.install b mode p s = r at hi ⊢
    cases hi with
    | refused => exact h.refl _
    | passedOver hstarted => exact absurd hstarted hunusable
    | unchanged hstarted => exact absurd hstarted hunusable
    | changed hstarted => exact absurd hstarted hunusable
  | @file _ a source name data =>
    have hf := Cache.filing name data c
    generalize c.file name data = r at hf ⊢
    cases hf with
    | refused => exact h.refl _
    | absent hstarted => exact absurd hstarted hunusable
    | filed hstarted => exact absurd hstarted hunusable
  | refreshed _ _ hstarted => exact absurd hstarted hunusable
  | remove => exact h.remove _ _
  | wipe => exact h.wipe _ _
  | start _ hnew =>
    rw [hphase] at hnew
    cases hnew
  | close _ hopen => exact absurd hphase hopen
  | register => exact h.register _ _
  | unregister => exact h.unregister _ _
  | clock => exact h.clock _ _

/-- Being closed is itself such a relation. -/
theorem sealed_phase : Sealed b fun c d ↦ c.phase = .cleared → d.phase = .cleared where
  refl _ h := h
  trans h₁ h₂ h := h₂ (h₁ h)
  register c l h := (Cache.cascading_frame.register c l).1.trans h
  unregister c l h := (Cache.cascading_frame.unregister c l).1.trans h
  close _ _ := rfl
  ask _ _ h := h
  clock _ _ h := h
  remove c name h := (Cache.cascading_frame.remove name c).1.trans h
  empty _ _ h := h

theorem Sealed.step (h : Sealed b R) (hphase : w.cache.phase = .cleared) (e : Event) :
    R w.cache (w.step b e).cache ∧ (w.step b e).cache.phase = .cleared := by
  have hpieces := World.step_pieces b w e
  generalize (w.step b e).cache = d at hpieces ⊢
  induction hpieces with
  | refl => exact ⟨h.refl _, hphase⟩
  | tail _ hp ih =>
    exact ⟨h.trans ih.1 (h.piece ih.2 hp), sealed_phase.piece ih.2 hp ih.2⟩

theorem phase_cleared_run (hphase : w.cache.phase = .cleared) (events : List Event) :
    (w.run b events).cache.phase = .cleared := by
  induction events generalizing w with
  | nil => exact hphase
  | cons e events ih => exact ih (sealed_phase.step hphase e).2

/-- **Every run from a closed cache respects every sealed relation.** -/
theorem Sealed.run (h : Sealed b R) (hphase : w.cache.phase = .cleared) (events : List Event) :
    R w.cache (w.run b events).cache := by
  induction events generalizing w with
  | nil => exact h.refl _
  | cons e events ih =>
    obtain ⟨hstep, hphase'⟩ := h.step hphase e
    exact h.trans hstep (ih hphase')

/-! ### What closed caches do -/

/-- The entries a closed cache still writes. -/
def Entry.OfClosed (e : Entry) : Prop := e.OfCascade ∨ ∃ q, e = .asked q

theorem sealed_wrote : Sealed b (Cache.Wrote Entry.OfClosed) where
  toSteady := (Cache.cascading_wrote fun _ he ↦ Or.inl he).toSteady
  close _ := .of_eq rfl
  ask _ q := .of_cons rfl (Or.inr ⟨q, rfl⟩)
  clock _ _ := .of_eq rfl
  remove c name := (Cache.cascading_wrote fun _ he ↦ Or.inl he).remove name c
  empty _ _ := .of_eq rfl

theorem sealed_thinned : Sealed b Cache.Thinned where
  toSteady := Cache.cascading_thinned.toSteady
  close _ _ := Or.inl rfl
  ask _ _ _ := Or.inl rfl
  clock _ _ _ := Or.inl rfl
  remove c name := Cache.cascading_thinned.remove name c
  empty _ _ _ := Or.inr rfl

/-- Nothing is left. -/
structure Cache.Empty (c : Cache) : Prop where
  stores : c.stores = ∅
  placements : c.placements = ∅
  schemas : c.schemas = ∅
  totalQuota : c.totalQuota = 0

theorem Cache.cascading_empty : Cache.Cascading fun c d ↦ c.Empty → d.Empty where
  refl _ h := h
  trans h₁ h₂ h := h₂ (h₁ h)
  register c l h := by
    unfold Cache.register
    split
    · exact h
    · exact ⟨h.1, h.2, h.3, h.4⟩
  unregister c l h := by
    unfold Cache.unregister
    split
    · exact ⟨h.1, h.2, h.3, h.4⟩
    · exact h
  called c l s h := ⟨h.1, h.2, h.3, h.4⟩
  returned c l event s remarks h := ⟨h.1, h.2, h.3, h.4⟩
  absent c name _ h := by
    rw [reportForgotten_eq]
    refine ⟨h.1, ?_, ?_, h.4⟩
    · exact congrArg (·.erase name) h.2
    · exact congrArg (·.erase name) h.3
  present c d name s hs _ h := by
    rw [h.1] at hs
    cases hs

theorem sealed_empty : Sealed b fun c d ↦ c.Empty → d.Empty where
  toSteady := Cache.cascading_empty.toSteady
  close _ h := ⟨h.1, h.2, h.3, h.4⟩
  ask _ _ h := ⟨h.1, h.2, h.3, h.4⟩
  clock _ _ h := ⟨h.1, h.2, h.3, h.4⟩
  remove c name := Cache.cascading_empty.remove name c
  empty _ _ _ := ⟨rfl, rfl, rfl, rfl⟩

/-! ### The clearing call -/

/-- The world in which a clearing call has closed the cache. -/
def World.closed (w : World) : World :=
  { w with cache := { w.cache with phase := .cleared }, stopping := true }

theorem World.step_clear {id : CallId} (order : List String) (hnew : w.knows id = false)
    (hphase : w.cache.phase ≠ .cleared) :
    w.step b (.call id (.clear order)) = w.closed.finishClear b id order ∨
      w.step b (.call id (.clear order)) = w.closed.wait id (.clear order) := by
  simp only [World.step, hnew, Bool.false_eq_true, if_false, World.call, if_neg hphase]
  split
  · exact Or.inl rfl
  · exact Or.inr rfl

theorem phase_cleared_step_clear {id : CallId} (order : List String) (hnew : w.knows id = false)
    (hphase : w.cache.phase ≠ .cleared) :
    (w.step b (.call id (.clear order))).cache.phase = .cleared := by
  rcases World.step_clear (b := b) order hnew hphase with h | h <;> rw [h]
  · exact sealed_phase.wipe order _ rfl
  · rfl

/-- A call to clear does nothing, or the cache is closed after it. -/
theorem World.step_clear_or (b : Behaviour) (w : World) (id : CallId) (order : List String) :
    w.step b (.call id (.clear order)) = w ∨
      (w.step b (.call id (.clear order))).cache.phase = .cleared := by
  by_cases hphase : w.cache.phase = .cleared
  · exact Or.inr (sealed_phase.step hphase _).2
  · by_cases hknown : w.knows id
    · exact Or.inl (if_pos hknown)
    · exact Or.inr (phase_cleared_step_clear order (Bool.eq_false_iff.2 hknown) hphase)

/-- While a call waits to go on with clearing, the cache is closed. -/
theorem World.phase_cleared_of_task? {tracks : Bool} {clock : Nat} {events : List Event}
    {id : CallId} {order : List String}
    (h : ((World.new tracks clock).run b events).task? id = some (.clear order)) :
    ((World.new tracks clock).run b events).cache.phase = .cleared := by
  induction events using List.reverseRecOn with
  | nil => cases h
  | append_singleton events e ih =>
    rw [run_concat] at h ⊢
    rcases step_task?_clear h with hbefore | rfl
    · exact (sealed_phase.step (ih hbefore) e).2
    · rcases step_clear_or b ((World.new tracks clock).run b events) id order with hsame | hclosed
      · rw [hsame] at h ⊢
        exact ih h
      · exact hclosed

/-- **A clearing call and all that comes after it respect every sealed relation.** -/
theorem Sealed.clear (h : Sealed b R) {id : CallId} (order : List String)
    (hnew : w.knows id = false) (hphase : w.cache.phase ≠ .cleared) (after : List Event) :
    R w.cache ((w.step b (.call id (.clear order))).run b after).cache := by
  have hclosed := phase_cleared_step_clear (b := b) order hnew hphase
  refine h.trans ?_ (h.run hclosed after)
  rcases World.step_clear (b := b) order hnew hphase with hw | hw <;> rw [hw]
  · exact h.trans (h.close w.cache) (h.wipe order _)
  · exact h.close w.cache

/-- A clearing call has returned and left nothing. -/
structure Cleared (id : CallId) (u : World) : Prop where
  task : u.task? id = none
  outcome : u.outcomes.lookup id = some (.ok .done)
  empty : u.cache.Empty

theorem cleared_finishClear (w : World) (id : CallId) (order : List String) :
    Cleared id (w.finishClear b id order) := by
  refine ⟨?_, ?_, ⟨rfl, rfl, rfl, rfl⟩⟩
  · unfold World.finishClear
    rw [World.task?_finish, if_pos rfl]
  · unfold World.finishClear World.finish
    rw [List.lookup_cons_self]

theorem Cleared.step {id : CallId} (h : Cleared id w) (hknows : w.knows id)
    (hphase : w.cache.phase = .cleared) (e : Event) : Cleared id (w.step b e) := by
  obtain ⟨htask, houtcome⟩ := World.step_of_task?_none (b := b) hknows h.task e
  exact ⟨htask, houtcome.trans h.outcome, (sealed_empty.step hphase e).1 h.empty⟩

theorem Cleared.run {id : CallId} (h : Cleared id w) (hknows : w.knows id)
    (hphase : w.cache.phase = .cleared) (events : List Event) : Cleared id (w.run b events) := by
  induction events generalizing w with
  | nil => exact h
  | cons e events ih =>
    exact ih (h.step hknows hphase e) (World.step_knows hknows e) (sealed_phase.step hphase e).2

/-- A clearing call waits, or has been given up, or is through. -/
inductive Clearing (id : CallId) (order : List String) (u : World) : Prop
  | waiting (ht : u.task? id = some (.clear order)) (ho : u.outcomes.lookup id = none)
  | abandoned (ht : u.task? id = none) (ho : u.outcomes.lookup id = none)
  | returned (h : Cleared id u)

theorem Clearing.step {id : CallId} {order : List String} (h : Clearing id order w)
    (hknows : w.knows id) (hphase : w.cache.phase = .cleared) (e : Event) :
    Clearing id order (w.step b e) := by
  cases h with
  | waiting ht ho =>
    cases World.fate (b := b) hknows e with
    | untouched htask houtcome => exact .waiting (htask.trans ht) (houtcome.trans ho)
    | answered source t _ ht' hclear =>
      rw [ht] at ht'
      exact absurd (Option.some.inj ht').symm (hclear order)
    | givenUp htask houtcome => exact .abandoned htask (houtcome.trans ho)
    | cleared order' _ hu => exact hu ▸ .returned (cleared_finishClear w id order')
  | abandoned ht ho =>
    obtain ⟨htask, houtcome⟩ := World.step_of_task?_none (b := b) hknows ht e
    exact .abandoned htask (houtcome.trans ho)
  | returned h => exact .returned (h.step hknows hphase e)

theorem Clearing.run {id : CallId} {order : List String} (h : Clearing id order w)
    (hknows : w.knows id) (hphase : w.cache.phase = .cleared) (events : List Event) :
    Clearing id order (w.run b events) := by
  induction events generalizing w with
  | nil => exact h
  | cons e events ih =>
    exact ih (h.step hknows hphase e) (World.step_knows hknows e) (sealed_phase.step hphase e).2

theorem clearing_step_clear {id : CallId} (order : List String) (hnew : w.knows id = false)
    (hphase : w.cache.phase ≠ .cleared) :
    Clearing id order (w.step b (.call id (.clear order))) ∧
      (w.step b (.call id (.clear order))).knows id := by
  rcases World.step_clear (b := b) order hnew hphase with h | h <;> rw [h]
  · refine ⟨.returned (cleared_finishClear w.closed id order), ?_⟩
    simp [World.knows, World.finishClear, World.finish]
  · refine ⟨.waiting ?_ ?_, by simp [World.knows, World.wait]⟩
    · rw [World.task?_wait, if_pos rfl]
    · simp only [World.knows, Bool.or_eq_false_iff] at hnew
      simpa [World.wait, World.closed] using hnew.1.2

/-! ### Calls that were in flight -/

/-- A call that has to fetch before it can return. -/
def Task.Fetches : Task → Prop
  | .refresh .. | .schema .. => True
  | .sweep _ | .clear _ => False

theorem Task.fetches_of_flight? {t : Task} {name : String} {stage : Stage}
    (h : t.flight? = some ⟨.upsert, name, stage⟩) : t.Fetches := by
  cases t with
  | refresh => exact trivial
  | sweep => cases h
  | schema => exact trivial
  | clear => cases h

/-- In a closed cache a refresh comes to no good end. -/
theorem Refresh.ended_closed {mode : Cache.Install} {name : String} {stage : Stage}
    {source : Source} {c : Cache} {result : Except CacheError (Option Store)}
    (hphase : c.phase = .cleared)
    (h : (Refresh.resume b mode name stage source c).1 = .ended result) (s : Store) :
    result ≠ .ok (some s) := by
  rintro rfl
  have hresumed := Refresh.resumed b mode name stage source c
  generalize Refresh.resume b mode name stage source c = next at h hresumed
  cases hresumed with
  | done _ hstarted =>
    rw [hphase] at hstarted
    cases hstarted
  | refused | unusable | placed | passedOver | installed | lost | absent => cases h

theorem World.dealt_answer_closed (hphase : w.cache.phase = .cleared) (id : CallId)
    (source : Source) {t : Task} (ht : t.Fetches) :
    World.Dealt w id (fun o ↦ ∃ err, o = .error err) Task.Fetches (w.answer b id source t) := by
  cases t with
  | refresh name stage wantsRecord =>
    refine (dealt_continueRefresh w id name wantsRecord _).mono ?_ ?_
    · rintro o ⟨result, hr, rfl⟩
      rcases result with err | _ | s
      · exact ⟨err, rfl⟩
      · exact ⟨_, rfl⟩
      · exact absurd rfl (Refresh.ended_closed hphase hr s)
    · rintro t' ⟨stage', -, rfl⟩
      trivial
  | sweep s => exact ht.elim
  | schema name q record =>
    refine .returned _ _ rfl rfl rfl rfl ?_
    simp only [Refresh.fileSchemas]
    rcases hd : source.schemas name with err | d
    · exact ⟨_, rfl⟩
    · simp only [Cache.file, hphase, Phase.usable]
      exact ⟨_, rfl⟩
  | clear order => exact ht.elim

/-- A call that can still only be refused: it has not returned otherwise, and it waits for an answer
if it waits. -/
structure Doomed (i : CallId) (u : World) : Prop where
  known : u.knows i
  waits : ∀ t, u.task? i = some t → t.Fetches
  refused : ∀ a, u.outcomes.lookup i ≠ some (.ok a)

theorem Doomed.step {i : CallId} (h : Doomed i w) (hphase : w.cache.phase = .cleared) (e : Event) :
    Doomed i (w.step b e) := by
  have hknown := World.step_knows (b := b) h.known e
  cases World.fate (b := b) h.known e with
  | untouched htask houtcome =>
    exact ⟨hknown, fun t ht ↦ h.waits t (htask.symm.trans ht),
      fun a ho ↦ h.refused a (houtcome.symm.trans ho)⟩
  | answered source t _ ht _ hu =>
    have hd := World.dealt_answer_closed (b := b) hphase i source (h.waits t ht)
    rw [← hu] at hd
    refine ⟨hknown, fun t' ht' ↦ hd.task?_self ht', fun a ho ↦ ?_⟩
    rcases hd.lookup_self ho with ⟨err, herr⟩ | ho
    · cases herr
    · exact h.refused a ho
  | givenUp htask houtcome =>
    refine ⟨hknown, fun t ht ↦ ?_, fun a ho ↦ h.refused a (houtcome.symm.trans ho)⟩
    rw [htask] at ht
    cases ht
  | cleared order ht => exact (h.waits _ ht).elim

theorem Doomed.run {i : CallId} (h : Doomed i w) (hphase : w.cache.phase = .cleared)
    (events : List Event) : Doomed i (w.run b events) := by
  induction events generalizing w with
  | nil => exact h
  | cons e events ih => exact ih (h.step hphase e) (sealed_phase.step hphase e).2

theorem doomed_step_clear {id i : CallId} {t : Task} (order : List String)
    (hnew : w.knows id = false) (hphase : w.cache.phase ≠ .cleared) (horderly : w.Orderly)
    (ht : w.task? i = some t) (hfetches : t.Fetches) :
    Doomed i (w.step b (.call id (.clear order))) := by
  have hknown : w.knows i := by
    have htask : w.tasks.lookup i = some t := ht
    simp [World.knows, htask]
  have hi : i ≠ id := by
    rintro rfl
    rw [hknown] at hnew
    cases hnew
  have hnone : w.outcomes.lookup i = none := horderly i (by simp [ht])
  have htask : (w.step b (.call id (.clear order))).task? i = some t := by
    rcases World.step_clear (b := b) order hnew hphase with h | h <;> rw [h]
    · unfold World.finishClear
      rwa [World.task?_finish, if_neg hi]
    · rwa [World.task?_wait, if_neg hi]
  refine ⟨World.step_knows hknown _, fun t' ht' ↦ ?_, fun a ho ↦ ?_⟩
  · rw [htask] at ht'
    cases ht'
    exact hfetches
  · have horderly' : (w.step b (.call id (.clear order))).Orderly := horderly.step _
    rw [horderly' i (by simp [htask])] at ho
    cases ho

/-! ### Who is told of what is cleared -/

/-- In a closed cache a record is news when it leaves, and is gone for good. -/
theorem Entry.OfClosed.gain_eq {e : Entry} (h : e.OfClosed) (r : Store) :
    e.gain r = -due e.news? (.deleted, r) := by
  rcases h with h | ⟨q, rfl⟩
  · cases e with
    | removed s => simp [Entry.gain, Entry.news?, due]
    | forgotten => rfl
    | registered => rfl
    | unregistered => rfl
    | returned => rfl
    | called => rfl
    | asked => exact h.elim
    | installed => exact h.elim
    | filed => exact h.elim
    | refreshed => exact h.elim
  · rfl

theorem Entry.OfClosed.news?_eq {e : Entry} (h : e.OfClosed) {x : StoreEvent × Store}
    (hx : e.news? = some x) : x.1 = .deleted := by
  rcases h with h | ⟨q, rfl⟩
  · cases e with
    | removed s =>
      cases hx
      rfl
    | installed => exact h.elim
    | asked => exact h.elim
    | filed => exact h.elim
    | refreshed => exact h.elim
    | forgotten => cases hx
    | registered => cases hx
    | unregistered => cases hx
    | returned => cases hx
    | called => cases hx
  · cases hx

theorem gain_of_closed (r : Store) {entries : List Entry} (h : ∀ e ∈ entries, e.OfClosed) :
    gain r entries = -((news entries).count (.deleted, r) : Int) := by
  induction entries with
  | nil => rfl
  | cons e entries ih =>
    have ih := ih fun e he ↦ h e (List.mem_cons_of_mem _ he)
    have he : e.gain r = -due e.news? (.deleted, r) := (h e List.mem_cons_self).gain_eq r
    have hnews := count_filterMap_cons Entry.news? e entries (.deleted, r)
    simp only [gain, news] at ih hnews ⊢
    omega

/-- **What a closed cache loses, every listener is told of once.** Between an instant at which the
record `r` is held and a later one at which nothing is, with only the entries of a closed cache in
between, a listener registered throughout is told about the name of `r` that `r` has left, and
nothing else. -/
theorem told_of_closed {c d : Cache} {l : ListenerId} {r : Store} {since : List Entry}
    (hjournal : d.journal = since ++ c.journal) (hsince : ∀ e ∈ since, e.OfClosed)
    (htold : Cache.Told l c d) (hrecorded : Cache.Recorded c d) (hnodup : c.roster.Nodup)
    (hnamed : c.Named) (hl : l ∈ c.roster) (hstays : .unregistered l ∉ since) {n : String}
    (hr : c.stores.get? n = some r) (hd : d.stores = ∅) :
    (told l since).filter (·.2.name = n) = [(.deleted, r)] := by
  obtain ⟨since₁, hsince₁, htold⟩ := htold
  obtain ⟨since₂, hsince₂, hrecorded⟩ := hrecorded
  obtain rfl : since = since₁ := List.append_cancel_right (hjournal.symm.trans hsince₁)
  obtain rfl : since = since₂ := List.append_cancel_right (hjournal.symm.trans hsince₂)
  have hname : r.name = n := hnamed n r hr
  -- What was held has left, and each departure has been told.
  have hleft : ∀ s, ((news since).count (.deleted, s) : Int) = c.held s := fun s ↦ by
    have hheld := (hrecorded hnamed).2 s
    have hnone : d.held s = 0 := by simp [Cache.held, hd]
    rw [gain_of_closed s hsince] at hheld
    omega
  have hpaid : ∀ x, (told l since).count x = (news since).count x := fun x ↦ by
    have hdebt : debt l since x = 0 := ((htold hnodup).2 hl hstays).2 x
    rw [debt] at hdebt
    omega
  -- A list with one entry is known by how often each piece of news is in it.
  refine List.perm_singleton.1 (List.perm_iff_count.2 fun x ↦ ?_)
  obtain ⟨event, s⟩ := x
  by_cases hs : s.name = n
  · rw [List.count_filter (by simpa using hs), hpaid]
    by_cases hevent : event = .deleted
    · subst hevent
      have hcount := hleft s
      rw [Cache.held, hs, hr] at hcount
      by_cases hrs : r = s <;> simp [hrs] at hcount ⊢ <;> omega
    · have hnone : (event, s) ∉ news since := fun hmem ↦ by
        obtain ⟨e, he, hx⟩ := List.mem_filterMap.1 hmem
        exact hevent ((hsince e he).news?_eq hx)
      rw [List.count_eq_zero.2 hnone]
      simp [Ne.symm hevent]
  · have hne : s ≠ r := fun h ↦ hs (h ▸ hname)
    rw [List.count_eq_zero.2 fun hmem ↦ hs (by simpa using (List.mem_filter.1 hmem).2)]
    simp [Ne.symm hne]

/-- **Clearing is final and complete.** Let a clearing call be made in any world a run leads to, and
let anything happen after it.

* From the call on no record and no schema set enters the cache, no listener is told of a change,
  and every shelf stays as it is or is cleared.
* When the call has returned, every listener registered throughout has been told about each store
  that was subscribed when the call was made, once, that it has left.
* From then on the cache holds nothing and tracks nothing.
* A refresh or a question about schemas that was in flight when the call was made never succeeds. -/
theorem clear_of_run (b : Behaviour) (tracks : Bool) (clock : Nat) (before : List Event)
    (id : CallId) (order : List String) (after : List Event)
    (hnew : ((World.new tracks clock).run b before).knows id = false)
    (hphase : ((World.new tracks clock).run b before).cache.phase ≠ .cleared) :
    let w := (World.new tracks clock).run b before
    let v := w.step b (.call id (.clear order))
    let u := v.run b after
    (∃ since, u.cache.journal = since ++ w.cache.journal ∧
      (∀ previous s p, .installed previous s p ∉ since) ∧ (∀ store d, .filed store d ∉ since) ∧
      (∀ l event s f, .called l event s f ∈ since → event = .deleted) ∧
      (u.outcomes.lookup id ≠ none → ∀ n r l, w.cache.stores.get? n = some r → l ∈ w.cache.roster →
        .unregistered l ∉ since → (told l since).filter (·.2.name = n) = [(.deleted, r)])) ∧
    (Cache.Thinned w.cache u.cache ∧
      ∀ earlier, earlier <+: after → Cache.Thinned (v.run b earlier).cache u.cache) ∧
    (∀ earlier, earlier <+: after → (v.run b earlier).outcomes.lookup id ≠ none →
      u.outcomes.lookup id = some (.ok .done) ∧ u.cache.Empty ∧ u.cache.freshness.tracked = 0) ∧
    ∀ i t, w.task? i = some t → t.Fetches → ∀ a, u.outcomes.lookup i ≠ some (.ok a) := by
  intro w v u
  have hclosed : v.cache.phase = .cleared := phase_cleared_step_clear order hnew hphase
  obtain ⟨hclearing, hknows⟩ := clearing_step_clear (b := b) order hnew hphase
  have hcleared : ∀ events, (v.run b events).outcomes.lookup id ≠ none →
      Cleared id (v.run b events) := fun events ho ↦ by
    cases hclearing.run (b := b) hknows hclosed events with
    | waiting _ hnone => exact absurd hnone ho
    | abandoned _ hnone => exact absurd hnone ho
    | returned h => exact h
  refine ⟨?_, ⟨?_, ?_⟩, ?_, ?_⟩
  · obtain ⟨since, hjournal, hsince⟩ := sealed_wrote.clear (b := b) order hnew hphase after
    refine ⟨since, hjournal, ?_, ?_, ?_, ?_⟩
    · intro previous s p hmem
      rcases hsince _ hmem with h | ⟨q, h⟩
      · exact h
      · cases h
    · intro store d hmem
      rcases hsince _ hmem with h | ⟨q, h⟩
      · exact h
      · cases h
    · intro l event s f hmem
      rcases hsince _ hmem with h | ⟨q, h⟩
      · exact h
      · cases h
    · intro ho n r l hr hl hstays
      obtain ⟨_, -, hroster⟩ := run_told b (World.new tracks clock) before l
      obtain ⟨_, -, hnamed⟩ := run_recorded b (World.new tracks clock) before
      exact told_of_closed hjournal hsince (run_told b w (.call id (.clear order) :: after) l)
        (run_recorded b w (.call id (.clear order) :: after)) (hroster .nil).1
        (hnamed fun _ _ h ↦ by cases h).1 hl hstays hr
        (hcleared after ho).empty.stores
  · exact sealed_thinned.clear order hnew hphase after
  · rintro earlier ⟨later, rfl⟩
    show Cache.Thinned (v.run b earlier).cache (v.run b (earlier ++ later)).cache
    rw [World.run_append]
    exact sealed_thinned.run (phase_cleared_run hclosed earlier) later
  · rintro earlier ⟨later, rfl⟩ ho
    have hlater : Cleared id u := by
      show Cleared id (v.run b (earlier ++ later))
      rw [World.run_append]
      exact (hcleared earlier ho).run (World.run_knows hknows earlier)
        (phase_cleared_run hclosed earlier) later
    have htracking : u.cache.Tracking := by
      have hrun := run_tracking b tracks clock (before ++ .call id (.clear order) :: (earlier ++ later))
      rwa [World.run_append] at hrun
    exact ⟨hlater.outcome, hlater.empty, htracking.tracked_eq_zero hlater.empty.stores⟩
  · intro i t ht hfetches
    -- What waits has not returned yet, so no success can lie in the past.
    have horderly : w.Orderly := (World.orderly_new tracks clock).run before
    exact ((doomed_step_clear order hnew hphase horderly ht hfetches).run hclosed after).refused

/-- A store is subscribed, and the subscription of another is in flight. -/
def interrupted (source : Source) : List Event :=
  subscription "orders" source ++ [.call 3 (.subscribe "users")]

/-- The periodic task stops, clearing goes on, and an answer comes too late. -/
def aftermath (source : Source) : List Event := [.backgroundStop, .proceed 4, .answer 3 source]

/-- A subscription that is in flight when the cache is cleared is refused, and the listener is told
of the store that was subscribed. -/
theorem told_of_interrupted :
    let source := Source.constant (.new "orders" "east") (.new "orders")
    let w := (World.new true 0).run .silent (interrupted source)
    let u := (w.step .silent (.call 4 (.clear []))).run .silent (aftermath source)
    w.knows 4 = false ∧ w.cache.phase ≠ .cleared ∧ u.cache.Empty ∧
      (∃ since, u.cache.journal = since ++ w.cache.journal ∧
        (told "listener" since).filter (·.2.name = "orders") = [(.deleted, .new "orders")]) ∧
      ∀ a, u.outcomes.lookup 3 ≠ some (.ok a) := by
  intro source
  have hclear := clear_of_run .silent true 0 (interrupted source) 4 [] (aftermath source) (by decide)
    (by decide)
  dsimp only at hclear ⊢
  generalize hw : (World.new true 0).run .silent (interrupted source) = w at hclear ⊢
  generalize hu : (w.step .silent (.call 4 (.clear []))).run .silent (aftermath source) = u
    at hclear ⊢
  have hreturned : (u.outcomes.lookup 4).isSome := by
    rw [← hu, ← hw]
    decide
  have hstays : (u.cache.journal.all fun e ↦ match e with
      | .unregistered _ => false
      | _ => true) = true := by
    rw [← hu, ← hw]
    decide
  have hr : w.cache.stores.get? "orders" = some (.new "orders") := by
    rw [← hw]
    decide
  have hflight : w.flight? (.call 3) = some ⟨.upsert, "users", .placement⟩ := by
    rw [← hw]
    decide
  obtain ⟨t, ht, hf⟩ := Option.bind_eq_some_iff.1 hflight
  obtain ⟨⟨since, hjournal, -, -, -, htold⟩, -, hempty, hrefused⟩ := hclear
  have hsome : u.outcomes.lookup 4 ≠ none := Option.isSome_iff_ne_none.1 hreturned
  refine ⟨by rw [← hw]; decide, by rw [← hw]; decide, ?_, ⟨since, hjournal, ?_⟩, ?_⟩
  · refine (hempty (aftermath source) List.prefix_rfl ?_).2.1
    rwa [hu]
  · refine htold hsome "orders" _ "listener" hr (by rw [← hw]; decide) fun hmem ↦ ?_
    have hin : .unregistered "listener" ∈ u.cache.journal :=
      hjournal ▸ List.mem_append_left _ hmem
    exact Bool.false_ne_true (List.all_eq_true.1 hstays _ hin)
  · exact hrefused 3 t ht (Task.fetches_of_flight? hf)

end StoreCache
