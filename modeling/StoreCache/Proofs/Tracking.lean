import StoreCache.Proofs.Run
import StoreCache.Proofs.Shelf

/-!
# What is tracked

Freshness is a fourth dictionary by store name, and it is kept apart: a refresh writes it when it is
through, long after the record has been installed, and taking a record out clears it before anybody
is told. **Only subscribed stores are tracked** (`run_tracking`). A cache that does not report
refreshes tracks nothing.
-/

namespace StoreCache

variable {b : Behaviour} {w : World} {e : Event}

namespace Cache

/-- Only subscribed stores have a time of their last refresh, and none has one if refreshes are not
reported. -/
structure Tracking (c : Cache) : Prop where
  off : c.tracks = false → c.freshness = .empty
  subscribed : ∀ n, c.stores.get? n = none → c.freshness.last? n = none

theorem last?_empty (n : String) : Freshness.empty.last? n = none := rfl

/-- Forgetting one store and keeping the records of the others keeps the times right. -/
theorem Tracking.forget {c d : Cache} (h : c.Tracking) {name : String}
    (htracks : d.tracks = c.tracks)
    (hfreshness : d.freshness = if c.tracks then c.freshness.forget name else c.freshness)
    (hstores : ∀ n, n ≠ name → d.stores.get? n = c.stores.get? n) : d.Tracking := by
  -- A cache that does not report has nothing to forget.
  rcases htracks' : c.tracks with - | -
  · have hempty : d.freshness = .empty := by
      rw [hfreshness, htracks', if_neg Bool.false_ne_true]
      exact h.off htracks'
    exact ⟨fun _ ↦ hempty, fun n _ ↦ by rw [hempty, last?_empty]⟩
  · rw [htracks', if_pos rfl] at hfreshness
    refine ⟨fun hoff ↦ ?_, fun n hn ↦ ?_⟩
    · rw [htracks, htracks'] at hoff
      cases hoff
    · rw [hfreshness, Freshness.last?, Freshness.forget, Dict.get?_erase]
      split
      · rfl
      · rename_i hne
        exact h.subscribed n ((hstores n hne).symm.trans hn)

theorem Tracking.of_eq {c d : Cache} (h : c.Tracking) (htracks : d.tracks = c.tracks)
    (hfreshness : d.freshness = c.freshness)
    (hstores : ∀ n, d.stores.get? n = none → c.stores.get? n = none) : d.Tracking :=
  ⟨fun hoff ↦ hfreshness.trans (h.off (htracks.symm.trans hoff)), fun n hn ↦ by
    rw [hfreshness]
    exact h.subscribed n (hstores n hn)⟩

/-- Where nothing is subscribed nothing is tracked. -/
theorem Tracking.tracked_eq_zero {c : Cache} (h : c.Tracking) (hstores : c.stores = ∅) :
    c.freshness.tracked = 0 := by
  have htimes : c.freshness.times = ∅ := Dict.ext_get? fun n ↦ h.subscribed n (by rw [hstores]; rfl)
  rw [Freshness.tracked, htimes]
  rfl

theorem cascading_tracking : Cascading fun c d ↦ c.Tracking → d.Tracking where
  refl _ h := h
  trans h₁ h₂ h := h₂ (h₁ h)
  register c l h := by
    unfold Cache.register
    split
    · exact h
    · exact h.of_eq rfl rfl fun _ hn ↦ hn
  unregister c l h := by
    unfold Cache.unregister
    split
    · exact h.of_eq rfl rfl fun _ hn ↦ hn
    · exact h
  called c l s h := h.of_eq rfl rfl fun _ hn ↦ hn
  returned c l event s remarks h := h.of_eq rfl rfl fun _ hn ↦ hn
  absent c name _ h := by
    rw [reportForgotten_eq]
    exact h.forget rfl rfl fun _ _ ↦ rfl
  present c d name s _ hd h := by
    have htaken : (c.takeOut name s).Tracking := by
      rw [takeOut_eq]
      exact h.forget rfl rfl fun n hn ↦ by simp [Dict.get?_erase, hn]
    exact (hd htaken).of_eq rfl rfl fun _ hn ↦ hn

theorem tracking_install {c : Cache} (h : c.Tracking) (mode : Install) (p : Placement) (s : Store) :
    (c.install b mode p s).2.Tracking := by
  have hput : ∀ s, (c.put p s).Tracking := fun s ↦ by
    refine h.of_eq rfl rfl fun n hn ↦ ?_
    have hinsert : (c.stores.insert s.name s).get? n = none := hn
    rw [Dict.get?_insert] at hinsert
    split at hinsert
    · cases hinsert
    · exact hinsert
  have hi := installation (b := b) mode p s c
  generalize c.install b mode p s = r at hi ⊢
  cases hi with
  | refused => exact h
  | passedOver => exact h
  | unchanged => exact hput _
  | changed =>
    refine cascading_tracking.notify (fun c l h ↦ h.of_eq rfl rfl fun _ hn ↦ hn) _ ?_
    exact (hput s.completed).of_eq rfl rfl fun _ hn ↦ hn

end Cache

theorem Piece.tracking {c d : Cache} (hpiece : Piece b w e c d) (h : c.Tracking) : d.Tracking := by
  cases hpiece with
  | ask => exact h.of_eq rfl rfl fun _ hn ↦ hn
  | install => exact Cache.tracking_install h _ _ _
  | @file _ a source name data =>
    have hf := Cache.filing name data c
    generalize c.file name data = r at hf ⊢
    cases hf with
    | refused => exact h
    | absent => exact h
    | filed => exact h.of_eq rfl rfl fun _ hn ↦ hn
  | refreshed _ name _ hs =>
    rw [Cache.reportRefreshed_eq]
    refine ⟨fun hoff ↦ ?_, fun n hn ↦ ?_⟩
    · have hoff : c.tracks = false := hoff
      simpa [hoff] using h.off hoff
    · -- The store reported is subscribed, so it is not the one without a record.
      have hne : n ≠ name := fun hname ↦ hs (hname ▸ hn)
      dsimp only
      split
      · rw [Freshness.last?, Freshness.refreshed, Dict.get?_insert, if_neg hne]
        exact h.subscribed n hn
      · exact h.subscribed n hn
  | remove => exact Cache.cascading_tracking.remove _ _ h
  | wipe _ order =>
    have hremoved := Cache.cascading_tracking.removeAll (b := b) (World.visiting order c) c h
    refine hremoved.of_eq rfl rfl fun n _ ↦ ?_
    rw [Cache.stores_removeAll_visiting]
    rfl
  | start => exact h.of_eq rfl rfl fun _ hn ↦ hn
  | close => exact h.of_eq rfl rfl fun _ hn ↦ hn
  | register => exact Cache.cascading_tracking.register _ _ h
  | unregister => exact Cache.cascading_tracking.unregister _ _ h
  | clock => exact h.of_eq rfl rfl fun _ hn ↦ hn

/-- **Only subscribed stores are tracked**, after every run. -/
theorem run_tracking (b : Behaviour) (tracks : Bool) (clock : Nat) (events : List Event) :
    ((World.new tracks clock).run b events).cache.Tracking :=
  World.run_rel (R := fun c d ↦ c.Tracking → d.Tracking) (fun _ h ↦ h) (fun h₁ h₂ h ↦ h₂ (h₁ h))
    Piece.tracking _ events ⟨fun _ ↦ rfl, fun _ _ ↦ rfl⟩

end StoreCache
