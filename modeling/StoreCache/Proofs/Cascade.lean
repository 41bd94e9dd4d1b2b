import StoreCache.Cache.Update

/-!
# Cascades

A removal tells the listeners, a listener may unsubscribe another store, and that removal tells the
listeners again: `run`, `call`, `callAll` and `removeWithin` go round in a circle that only the
depth cuts. What there is to know about such a cascade is a relation between the cache before and
the cache after, and the circle is gone round **once**, here.

* `Steady R` says that `R` survives what a callback does by itself: register and unregister.
* `Cascading R` says that it also survives the entries a callback leaves in the journal and the two
  ways a removal can go. The interesting field is `present`: between taking the record out and
  dropping the rest of the store there is room for a whole cascade, so the field assumes the
  relation of that cascade and not of the two halves.

From `Cascading R` follow `R` for every removal, every notification and every removal loop,
whatever the listeners do. Nothing here depends on how deep the removals go.

Installing a record and filing a schema set are then told apart by how they can go (`Installation`,
`Filing`), so that no later proof opens them.
-/

namespace StoreCache

namespace Cache

variable {R : Cache → Cache → Prop} {b : Behaviour} {unsubscribe : String → Cache → Cache}

/-- A relation between caches that survives what a callback does to the roster. -/
structure Steady (R : Cache → Cache → Prop) : Prop where
  refl : ∀ c, R c c
  trans : ∀ {c d e}, R c d → R d e → R c e
  register : ∀ c l, R c (c.register l).2
  unregister : ∀ c l, R c (c.unregister l).2

/-- A relation between caches that survives removals, and with them whole cascades. -/
structure Cascading (R : Cache → Cache → Prop) : Prop extends Steady R where
  called : ∀ (c : Cache) l s, R c (c.note (.called l .deleted s ⟨c.stores, c.totalQuota⟩))
  returned : ∀ (c : Cache) l event s remarks, R c (c.note (.returned l event s remarks))
  absent : ∀ (c : Cache) name, c.stores.get? name = none →
    R c ((c.reportForgotten name).dropRest name)
  present : ∀ (c d : Cache) name s, c.stores.get? name = some s → R (c.takeOut name s) d →
    R c (d.dropRest name)

/-! ### Reports and removals, field by field -/

theorem reportRefreshed_eq (c : Cache) (name : String) :
    c.reportRefreshed name =
      { c with
        journal := .refreshed name c.clock :: c.journal
        freshness := if c.tracks then c.freshness.refreshed name c.clock else c.freshness } := by
  unfold reportRefreshed
  dsimp only [note]
  split <;> rfl

theorem reportForgotten_eq (c : Cache) (name : String) :
    c.reportForgotten name =
      { c with
        journal := .forgotten name :: c.journal
        freshness := if c.tracks then c.freshness.forget name else c.freshness } := by
  unfold reportForgotten
  dsimp only [note]
  split <;> rfl

theorem takeOut_eq (c : Cache) (name : String) (s : Store) :
    c.takeOut name s =
      { c with
        stores := c.stores.erase name
        totalQuota := saturate (c.totalQuota + -s.quota)
        journal := .forgotten name :: .removed s :: c.journal
        freshness := if c.tracks then c.freshness.forget name else c.freshness } := by
  dsimp only [takeOut]
  rw [reportForgotten_eq]
  rfl

/-! ### Callbacks -/

/-- A script does nothing but change the roster, unsubscribe and look. -/
theorem Steady.run (h : Steady R) (hU : ∀ name c, R c (unsubscribe name c)) (script : Script) :
    ∀ c remarks, R c (run unsubscribe script c remarks).2.1 := by
  induction script with
  | finish ending => exact fun c _ ↦ h.refl c
  | register l next ih => exact fun c _ ↦ h.trans (h.register c l) (ih _ _ _)
  | unregister l next ih => exact fun c _ ↦ h.trans (h.unregister c l) (ih _ _ _)
  | unsubscribe name next ih => exact fun c _ ↦ h.trans (hU name c) (ih _ _)
  | look name next ih => exact fun c _ ↦ ih _ _ _

theorem Cascading.call (h : Cascading R) (hU : ∀ name c, R c (unsubscribe name c))
    {event : StoreEvent} {s : Store}
    (hcalled : ∀ (c : Cache) l, R c (c.note (.called l event s ⟨c.stores, c.totalQuota⟩)))
    (l : ListenerId) (c : Cache) : R c (call unsubscribe b event s l c).2 := by
  have hrun := h.run hU (b c.journal l event s)
    (c.note (.called l event s ⟨c.stores, c.totalQuota⟩)) []
  exact h.trans (h.trans (hcalled c l) hrun) (h.returned _ l event s _)

theorem Cascading.callAll (h : Cascading R) (hU : ∀ name c, R c (unsubscribe name c))
    {event : StoreEvent} {s : Store}
    (hcalled : ∀ (c : Cache) l, R c (c.note (.called l event s ⟨c.stores, c.totalQuota⟩)))
    (ls : List ListenerId) : ∀ c, R c (callAll unsubscribe b event s ls c).2 := by
  induction ls with
  | nil => exact h.refl
  | cons l ls ih => exact fun c ↦ h.trans (h.call hU hcalled l c) (ih _)

/-! ### Removals -/

/-- The circle, gone round once: a relation that survives a removal whose callbacks unsubscribe by
any `unsubscribe` that respects it, survives removals of any depth. -/
theorem removeWithin_rel (refl : ∀ c, R c c)
    (absent : ∀ (c : Cache) name, c.stores.get? name = none →
      R c ((c.reportForgotten name).dropRest name))
    (present : ∀ unsubscribe : String → Cache → Cache, (∀ name c, R c (unsubscribe name c)) →
      ∀ (c : Cache) name s, c.stores.get? name = some s →
        R c ((notifyWith unsubscribe b .deleted s (c.takeOut name s)).2.dropRest name))
    (depth : Nat) : ∀ name c, R c (removeWithin b depth name c) := by
  induction depth with
  | zero => exact fun _ c ↦ refl c
  | succ depth ih =>
    intro name c
    -- The callbacks of this removal unsubscribe by removals one level down.
    rcases hs : c.stores.get? name with - | s
    · simpa only [removeWithin, hs] using absent c name hs
    · simpa only [removeWithin, hs] using present _ ih c name s hs

theorem Cascading.removeWithin (h : Cascading R) (depth : Nat) (name : String) (c : Cache) :
    R c (removeWithin b depth name c) :=
  removeWithin_rel h.refl h.absent
    (fun _ hU c name s hs ↦ h.present c _ name s hs (h.callAll hU (h.called · · s) _ _))
    depth name c

theorem Cascading.remove (h : Cascading R) (name : String) (c : Cache) : R c (c.remove b name) :=
  h.removeWithin _ name c

theorem Cascading.removeAll (h : Cascading R) (names : List String) :
    ∀ c : Cache, R c (c.removeAll b names) := by
  induction names with
  | nil => exact h.refl
  | cons name names ih => exact fun c ↦ h.trans (h.remove name c) (ih _)

/-! ### Notifications -/

/-- A notification that something has changed differs from one that something has left only in the
event of its own callbacks. -/
theorem Cascading.notify (h : Cascading R) {event : StoreEvent} {s : Store}
    (hcalled : ∀ (c : Cache) l, R c (c.note (.called l event s ⟨c.stores, c.totalQuota⟩)))
    (c : Cache) : R c (c.notify b event s).2 :=
  h.callAll (fun name c ↦ h.remove name c) hcalled _ c

/-! ### Installing and filing -/

/-- How installing a record can go. -/
inductive Installation (b : Behaviour) (mode : Install) (p : Placement) (s : Store) (c : Cache) :
    Except CacheError (Option Store) × Cache → Prop
  /-- The cache cannot be used. -/
  | refused {e : CacheError} (hphase : c.phase ≠ .started) (he : c.phase.usable = .error e) :
    Installation b mode p s c (.error e, c)
  /-- The store is not subscribed and may not be brought in. -/
  | passedOver (hphase : c.phase = .started) (hs : c.stores.get? s.name = none)
    (hmode : mode = .replace) : Installation b mode p s c (.ok none, c)
  /-- The record is the one there was, and nobody is told. -/
  | unchanged (hphase : c.phase = .started) (hs : c.stores.get? s.name = some s.completed) :
    Installation b mode p s c (.ok (some s.completed), c.put p s.completed)
  /-- The record is another than the one there was, or there was none. -/
  | changed (hphase : c.phase = .started) (hs : c.stores.get? s.name ≠ some s.completed)
    (hmode : c.stores.get? s.name = none → mode = .upsert) :
    Installation b mode p s c (.ok (some s.completed),
      (((c.put p s.completed).addQuota
        (s.completed.quota - ((c.stores.get? s.name).map Store.quota).getD 0)).notify
          b .changed s.completed).2)

theorem installation (mode : Install) (p : Placement) (s : Store) (c : Cache) :
    Installation b mode p s c (c.install b mode p s) := by
  unfold install
  rcases hu : c.phase.usable with e | u
  · exact .refused (fun h ↦ by rw [Phase.usable_eq_ok_iff.2 h] at hu; cases hu) hu
  · have hphase : c.phase = .started := Phase.usable_eq_ok_iff.1 hu
    dsimp only
    split
    · rename_i hout
      exact .passedOver hphase hout.1 hout.2
    · rename_i hin
      split
      · rename_i hs
        exact .unchanged hphase hs
      · rename_i hs
        refine .changed hphase hs fun hnone ↦ ?_
        cases mode with
        | upsert => rfl
        | replace => exact absurd ⟨hnone, rfl⟩ hin

/-- How filing a schema set can go. -/
inductive Filing (name : String) (d : SchemaSet) (c : Cache) : Except CacheError Unit × Cache → Prop
  /-- The cache cannot be used. -/
  | refused {e : CacheError} (hphase : c.phase ≠ .started) (he : c.phase.usable = .error e) :
    Filing name d c (.error e, c)
  /-- The store is not subscribed. -/
  | absent (hphase : c.phase = .started) (hs : c.stores.get? name = none) :
    Filing name d c (.error (.noSuchStore name none), c)
  /-- The set goes to the record that is there. -/
  | filed {s : Store} (hphase : c.phase = .started) (hs : c.stores.get? name = some s) :
    Filing name d c
      (.ok (), { c with schemas := c.schemas.insert name d }.note (.filed name d))

theorem filing (name : String) (d : SchemaSet) (c : Cache) : Filing name d c (c.file name d) := by
  unfold file
  rcases hu : c.phase.usable with e | u
  · exact .refused (fun h ↦ by rw [Phase.usable_eq_ok_iff.2 h] at hu; cases hu) hu
  · have hphase : c.phase = .started := Phase.usable_eq_ok_iff.1 hu
    rcases hs : c.stores.get? name with - | s
    · simpa [Dict.contains, hs] using Filing.absent (d := d) hphase hs
    · simpa [Dict.contains, hs] using Filing.filed (d := d) hphase hs

/-! ### What a cascade leaves alone -/

/-- Whatever happens in a cascade, the phase, the clock and the reporting stay as they are. -/
theorem cascading_frame :
    Cascading fun c d ↦ d.phase = c.phase ∧ d.tracks = c.tracks ∧ d.clock = c.clock where
  refl c := ⟨rfl, rfl, rfl⟩
  trans h₁ h₂ := ⟨h₂.1.trans h₁.1, h₂.2.1.trans h₁.2.1, h₂.2.2.trans h₁.2.2⟩
  register c l := by unfold Cache.register; split <;> exact ⟨rfl, rfl, rfl⟩
  unregister c l := by unfold Cache.unregister; split <;> exact ⟨rfl, rfl, rfl⟩
  called c l s := ⟨rfl, rfl, rfl⟩
  returned c l event s remarks := ⟨rfl, rfl, rfl⟩
  absent c name _ := by
    rw [reportForgotten_eq]
    exact ⟨rfl, rfl, rfl⟩
  present c d name s _ h := by
    rw [takeOut_eq] at h
    exact h

/-! ### What a cascade writes -/

end Cache

/-- The entries a cascade leaves in the journal: records leave, listeners are told so, and what the
callbacks do. -/
def Entry.OfCascade : Entry → Prop
  | .removed _ | .forgotten _ | .registered _ | .unregistered _ | .returned .. => True
  | .called _ event .. => event = .deleted
  | .asked _ | .installed .. | .filed .. | .refreshed .. => False

namespace Cache

/-- The journal has grown, by entries such as `P`. -/
def Wrote (P : Entry → Prop) (c d : Cache) : Prop :=
  ∃ new, d.journal = new ++ c.journal ∧ ∀ e ∈ new, P e

variable {P : Entry → Prop} {c d : Cache}

theorem Wrote.of_eq (h : d.journal = c.journal) : Wrote P c d := ⟨[], h, by simp⟩

theorem Wrote.of_cons {e : Entry} (h : d.journal = e :: c.journal) (he : P e) : Wrote P c d :=
  ⟨[e], h, by simpa using he⟩

theorem Wrote.trans {c d e : Cache} (h₁ : Wrote P c d) (h₂ : Wrote P d e) : Wrote P c e := by
  obtain ⟨new₁, hd, hnew₁⟩ := h₁
  obtain ⟨new₂, he, hnew₂⟩ := h₂
  refine ⟨new₂ ++ new₁, by rw [he, hd, List.append_assoc], fun x hx ↦ ?_⟩
  rcases List.mem_append.1 hx with hx | hx
  · exact hnew₂ x hx
  · exact hnew₁ x hx

theorem Wrote.mem (h : Wrote P c d) {e : Entry} (he : e ∈ c.journal) : e ∈ d.journal := by
  obtain ⟨new, hd, -⟩ := h
  exact hd ▸ List.mem_append_right new he

theorem Wrote.suffix (h : Wrote P c d) : c.journal <:+ d.journal := by
  obtain ⟨new, hd, -⟩ := h
  exact hd ▸ List.suffix_append new c.journal

/-- **A cascade only adds to the journal**, and only entries of its own kinds. -/
theorem cascading_wrote (hP : ∀ e : Entry, e.OfCascade → P e) : Cascading (Wrote P) where
  refl c := .of_eq rfl
  trans := .trans
  register c l := by
    unfold Cache.register
    split
    · exact .of_eq rfl
    · exact .of_cons rfl (hP _ trivial)
  unregister c l := by
    unfold Cache.unregister
    split
    · exact .of_cons rfl (hP _ trivial)
    · exact .of_eq rfl
  called c l s := .of_cons rfl (hP _ rfl)
  returned c l event s remarks := .of_cons rfl (hP _ trivial)
  absent c name _ := by
    rw [reportForgotten_eq]
    exact .of_cons rfl (hP _ trivial)
  present c d name s _ h := by
    -- Two entries are the removal's own; `h` is about those of its callbacks.
    have htaken : Wrote P c (c.takeOut name s) := by
      rw [takeOut_eq]
      exact ⟨[.forgotten name, .removed s], rfl, by simpa using ⟨hP _ trivial, hP _ trivial⟩⟩
    exact htaken.trans h

/-- **What an install writes**: the record it puts in, and what comes of telling the listeners. -/
theorem wrote_install (hP : ∀ e : Entry, e.OfCascade → P e) {p : Placement} {s : Store}
    (hinstalled : ∀ previous, P (.installed previous s.completed p))
    (hcalled : ∀ l found, P (.called l .changed s.completed found)) (mode : Install) (c : Cache) :
    Wrote P c (c.install b mode p s).2 := by
  have hi := installation (b := b) mode p s c
  generalize c.install b mode p s = r at hi ⊢
  cases hi with
  | refused => exact .of_eq rfl
  | passedOver => exact .of_eq rfl
  | unchanged => exact .of_cons rfl (hinstalled (c.stores.get? s.name))
  | changed =>
    have hput : ∀ delta, Wrote P c ((c.put p s.completed).addQuota delta) :=
      fun _ ↦ .of_cons rfl (hinstalled (c.stores.get? s.name))
    exact (hput _).trans ((cascading_wrote hP).notify (fun _ _ ↦ .of_cons rfl (hcalled _ _)) _)

end Cache

end StoreCache
