import StoreCache.Proofs.Shelf

/-!
# Passive listeners

What the cache holds is its three dictionaries and the total read quota (`Contents`). Listeners are
**passive** from an instant on if no callback changes that any more; they may still come and go,
look, and fail. With passive listeners a notification changes nothing and an install does what it
says.

Being passive is a statement about what callbacks do and not about how they are written. A script
that never unsubscribes is one way to it (`passive_of_script`). What callbacks do may depend on all
that has happened, so an instant is given by its journal.
-/

namespace StoreCache

/-- What a cache holds. -/
structure Contents where
  stores : Dict String Store
  placements : Dict String Placement
  schemas : Dict String SchemaSet
  totalQuota : Int

/-- A record and its placement are put in where there was no record. -/
def Contents.put (k : Contents) (p : Placement) (s : Store) : Contents where
  stores := k.stores.insert s.name s
  placements := k.placements.insert s.name p
  schemas := k.schemas
  totalQuota := saturate (k.totalQuota + s.quota)

namespace Cache

/-- What the cache holds. -/
def contents (c : Cache) : Contents := ⟨c.stores, c.placements, c.schemas, c.totalQuota⟩

theorem shelf_eq_of_contents {c d : Cache} (h : d.contents = c.contents) (n : String) :
    d.shelf n = c.shelf n := by
  simp only [contents, Contents.mk.injEq] at h
  obtain ⟨hstores, hplacements, hschemas, -⟩ := h
  rw [shelf, shelf, hstores, hplacements, hschemas]

@[simp] theorem contents_register (c : Cache) (l : ListenerId) :
    (c.register l).2.contents = c.contents := by
  unfold Cache.register
  split <;> rfl

@[simp] theorem contents_unregister (c : Cache) (l : ListenerId) :
    (c.unregister l).2.contents = c.contents := by
  unfold Cache.unregister
  split <;> rfl

end Cache

/-- Listeners whose callbacks leave what the cache holds alone, from the instant on at which the
journal is `journal`. -/
def Behaviour.Passive (b : Behaviour) (journal : List Entry) : Prop :=
  ∀ event s l (c : Cache), journal <:+ c.journal →
    (Cache.call (Cache.remove b) b event s l c).2.contents = c.contents

theorem Behaviour.Passive.mono {b : Behaviour} {journal later : List Entry} (hb : b.Passive journal)
    (h : journal <:+ later) : b.Passive later :=
  fun event s l c hc ↦ hb event s l c (h.trans hc)

/-- A script that unsubscribes nothing. -/
def Script.Passive : Script → Prop
  | .finish _ => True
  | .register _ next => ∀ changed, (next changed).Passive
  | .unregister _ next => ∀ changed, (next changed).Passive
  | .unsubscribe _ _ => False
  | .look _ next => ∀ glimpse, (next glimpse).Passive

namespace Cache

variable {b : Behaviour}

theorem contents_run {unsubscribe : String → Cache → Cache} {script : Script}
    (h : script.Passive) : ∀ (c : Cache) remarks,
    (run unsubscribe script c remarks).2.1.contents = c.contents := by
  induction script with
  | finish => exact fun _ _ ↦ rfl
  | register l next ih =>
    intro c remarks
    exact (ih _ (h _) _ _).trans (contents_register c l)
  | unregister l next ih =>
    intro c remarks
    exact (ih _ (h _) _ _).trans (contents_unregister c l)
  | unsubscribe => exact h.elim
  | look name next ih => exact fun c remarks ↦ ih _ (h _) _ _

theorem passive_of_script {journal : List Entry}
    (h : ∀ later l event s, journal <:+ later → (b later l event s).Passive) : b.Passive journal :=
  fun event s l c hc ↦ contents_run (h c.journal l event s hc) _ _

theorem contents_notify (event : StoreEvent) (s : Store) {c : Cache} (hb : b.Passive c.journal) :
    (c.notify b event s).2.contents = c.contents := by
  have hcallAll : ∀ (ls : List ListenerId) (c : Cache), b.Passive c.journal →
      (callAll (remove b) b event s ls c).2.contents = c.contents := by
    intro ls
    induction ls with
    | nil => exact fun _ _ ↦ rfl
    | cons l ls ih =>
      intro c hb
      -- Each callback only adds to the journal, so the next one is passive too.
      have hwrote : Wrote (fun _ ↦ True) c (call (remove b) b event s l c).2 :=
        (cascading_wrote fun _ _ ↦ trivial).call
          (fun name c ↦ (cascading_wrote fun _ _ ↦ trivial).remove name c)
          (fun c l ↦ .of_cons rfl trivial) l c
      exact (ih _ (hb.mono hwrote.suffix)).trans (hb event s l c List.suffix_rfl)
  exact hcallAll c.roster c hb

/-- **With passive listeners a record brought in is there**, with its placement and its quota, and
nothing else is different. -/
theorem contents_install {c : Cache} (hb : b.Passive c.journal) (p : Placement) (s : Store)
    (hphase : c.phase = .started) (hs : c.stores.get? s.name = none) :
    (c.install b .upsert p s).1 = .ok (some s.completed) ∧
      (c.install b .upsert p s).2.contents = c.contents.put p s.completed := by
  have hi := installation (b := b) .upsert p s c
  generalize c.install b .upsert p s = r at hi ⊢
  cases hi with
  | refused hunusable => exact absurd hphase hunusable
  | passedOver _ _ hmode => cases hmode
  | unchanged _ hsame =>
    rw [hs] at hsame
    cases hsame
  | changed =>
    refine ⟨rfl, (contents_notify _ _ (hb.mono (List.suffix_cons _ _))).trans ?_⟩
    rw [hs]
    simp [contents, Contents.put, addQuota, Cache.put, note]

/-- Nobody undoes an install, so a record that has been brought in is there. -/
theorem contents_of_install {c d : Cache} (hb : b.Passive c.journal) {p : Placement} {s t : Store}
    (hs : c.stores.get? s.name = none) (hinstall : c.install b .upsert p s = (.ok (some t), d)) :
    t = s.completed ∧ d.contents = c.contents.put p s.completed := by
  have hphase : c.phase = .started := by
    have hi := installation (b := b) .upsert p s c
    rw [hinstall] at hi
    cases hi <;> assumption
  obtain ⟨hok, hput⟩ := contents_install hb p s hphase hs
  rw [hinstall] at hok hput
  exact ⟨Option.some.inj (Except.ok.inj hok), hput⟩

end Cache

end StoreCache
