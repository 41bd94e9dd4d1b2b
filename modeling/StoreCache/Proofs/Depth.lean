import StoreCache.Proofs.Cascade

/-!
# How deep removals go

A removal is run with a bound on the removals inside one another, and the bound is one more than the
number of records. **The bound is never felt**: a record is taken out before its listeners are told,
so every removal inside finds one record fewer, and any larger bound gives the same cache
(`removeWithin_eq_remove`).

What is left is the equation by which later proofs see a removal (`remove_of_some`): take the record
out, tell the listeners, whose callbacks unsubscribe by removals of the same kind, and drop the
rest.
-/

namespace StoreCache

section Sizes

variable {κ α : Type} [Ord κ]

theorem exists_mem_of_lookup? {l : List (κ × α)} {x : κ} {v : α} (h : lookup? x l = some v) :
    ∃ e ∈ l, compare x e.1 = .eq := by
  induction l with
  | nil => cases h
  | cons e l ih =>
    obtain ⟨k, u⟩ := e
    by_cases hx : compare x k = .eq
    · exact ⟨(k, u), List.mem_cons_self, hx⟩
    · rw [lookup?, if_neg hx] at h
      obtain ⟨e, he, hxe⟩ := ih h
      exact ⟨e, List.mem_cons_of_mem _ he, hxe⟩

/-- Taking out an entry that is there leaves fewer. -/
theorem Dict.size_erase_lt {d : Dict κ α} {x : κ} {v : α} (h : d.get? x = some v) :
    (d.erase x).size < d.size := by
  obtain ⟨e, he, hx⟩ := exists_mem_of_lookup? h
  exact List.length_filter_lt_length_iff_exists.2 ⟨e, he, by simpa using hx⟩

end Sizes

namespace Cache

variable {b : Behaviour} {U U' : String → Cache → Cache} {bound : Nat}

/-- A cascade only takes records out. -/
theorem cascading_size : Cascading fun c d ↦ d.stores.size ≤ c.stores.size where
  refl _ := Nat.le_refl _
  trans h₁ h₂ := Nat.le_trans h₂ h₁
  register c l := by unfold Cache.register; split <;> exact Nat.le_refl _
  unregister c l := by unfold Cache.unregister; split <;> exact Nat.le_refl _
  called _ _ _ := Nat.le_refl _
  returned _ _ _ _ _ := Nat.le_refl _
  absent c name _ := by
    rw [reportForgotten_eq]
    exact Nat.le_refl _
  present c d name s _ h := by
    rw [takeOut_eq] at h
    exact Nat.le_trans h (c.stores.size_erase_le name)

theorem size_takeOut_lt {c : Cache} {name : String} {s : Store}
    (hs : c.stores.get? name = some s) : (c.takeOut name s).stores.size < c.stores.size := by
  rw [takeOut_eq]
  exact Dict.size_erase_lt hs

/-! ### Callbacks that unsubscribe alike -/

/-- Up to `bound` records, two ways to unsubscribe do the same. -/
def Alike (bound : Nat) (U U' : String → Cache → Cache) : Prop :=
  ∀ name c, c.stores.size ≤ bound → U name c = U' name c

theorem Alike.run (h : Alike bound U U')
    (hsize : ∀ name c, (U' name c).stores.size ≤ c.stores.size) (script : Script) :
    ∀ c remarks, c.stores.size ≤ bound →
      Cache.run U script c remarks = Cache.run U' script c remarks := by
  induction script with
  | finish ending => exact fun _ _ _ ↦ rfl
  | register l next ih =>
    exact fun c _ hc ↦ ih _ _ _ (Nat.le_trans (cascading_size.register c l) hc)
  | unregister l next ih =>
    exact fun c _ hc ↦ ih _ _ _ (Nat.le_trans (cascading_size.unregister c l) hc)
  | unsubscribe name next ih =>
    intro c remarks hc
    show Cache.run U next (U name c) remarks = Cache.run U' next (U' name c) remarks
    rw [h name c hc]
    exact ih _ _ (Nat.le_trans (hsize name c) hc)
  | look name next ih => exact fun c _ hc ↦ ih _ _ _ hc

theorem Alike.callAll (h : Alike bound U U')
    (hsize : ∀ name c, (U' name c).stores.size ≤ c.stores.size) (event : StoreEvent) (s : Store)
    (ls : List ListenerId) : ∀ c, c.stores.size ≤ bound →
      callAll U b event s ls c = callAll U' b event s ls c := by
  induction ls with
  | nil => exact fun _ _ ↦ rfl
  | cons l ls ih =>
    intro c hc
    have hcall : call U b event s l c = call U' b event s l c := by
      have hrun := h.run hsize (b c.journal l event s)
        (c.note (.called l event s ⟨c.stores, c.totalQuota⟩)) [] hc
      simp only [call, hrun]
    have hsmaller : (call U' b event s l c).2.stores.size ≤ bound :=
      Nat.le_trans (cascading_size.call hsize (fun _ _ ↦ Nat.le_refl _) l c) hc
    simp only [Cache.callAll, hcall, ih _ hsmaller]

/-! ### The bound is never felt -/

theorem removeWithin_congr (bound : Nat) : ∀ {depth depth' : Nat}, bound < depth → bound < depth' →
    Alike bound (removeWithin b depth) (removeWithin b depth') := by
  induction bound using Nat.strongRecOn with
  | ind bound ih =>
    intro depth depth' hdepth hdepth' name c hc
    obtain ⟨depth, rfl⟩ := Nat.exists_eq_succ_of_ne_zero (Nat.ne_zero_of_lt hdepth)
    obtain ⟨depth', rfl⟩ := Nat.exists_eq_succ_of_ne_zero (Nat.ne_zero_of_lt hdepth')
    rcases hs : c.stores.get? name with - | s
    · simp only [removeWithin, hs]
    · -- The callbacks find one record fewer, and both bounds are still above that.
      have hless := size_takeOut_lt hs
      have hinside : Alike (c.takeOut name s).stores.size (removeWithin b depth)
          (removeWithin b depth') :=
        ih _ (by omega) (by omega) (by omega)
      have htold := hinside.callAll (b := b) (fun name c ↦ cascading_size.removeWithin _ name c)
        .deleted s (c.takeOut name s).roster (c.takeOut name s) (Nat.le_refl _)
      simp only [removeWithin, hs, notifyWith, htold]

/-- **Any bound above the number of records gives the same removal.** -/
theorem removeWithin_eq_remove {depth : Nat} {c : Cache} (h : c.stores.size < depth)
    (name : String) : removeWithin b depth name c = c.remove b name :=
  removeWithin_congr c.stores.size h (Nat.lt_succ_self _) name c (Nat.le_refl _)

theorem remove_of_none {c : Cache} {name : String} (hs : c.stores.get? name = none) :
    c.remove b name = (c.reportForgotten name).dropRest name := by
  simp only [remove, removeWithin, hs]

/-- **A removal** takes the record out, tells the listeners, and drops the rest. -/
theorem remove_of_some {c : Cache} {name : String} {s : Store}
    (hs : c.stores.get? name = some s) :
    c.remove b name = ((c.takeOut name s).notify b .deleted s).2.dropRest name := by
  have hless := size_takeOut_lt hs
  have halike : Alike (c.takeOut name s).stores.size (removeWithin b c.stores.size) (remove b) :=
    fun name' c' hc' ↦ removeWithin_eq_remove (by omega) name'
  have htold := halike.callAll (b := b) (fun name c ↦ cascading_size.remove name c) .deleted s
    (c.takeOut name s).roster (c.takeOut name s) (Nat.le_refl _)
  simp only [remove, removeWithin, hs, notifyWith, htold, notify]

end Cache

end StoreCache
