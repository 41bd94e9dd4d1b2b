import StoreCache.Proofs.Cascade
import StoreCache.World

/-!
# Shelves

Three dictionaries hold what the cache knows about a store. Read across instead of down, they are a
**shelf** for each name: the record, the placement and the schema set kept under it. Almost
everything the cache does concerns one shelf at a time, and most of what is to be known about the
dictionaries is one statement about every shelf.

A cascade can only clear shelves, and clears each one whole: between the cache before and the cache
after, every shelf is as it was or bare (`Thinned`). An installed record fills one shelf before its
cascade begins (`shelf_install`), a schema set is put on a shelf that has a record (`shelf_file`),
and nothing else ever writes.
-/

namespace StoreCache

/-- What the cache holds about one store. -/
structure Shelf where
  store : Option Store
  placement : Option Placement
  schemas : Option SchemaSet
  deriving DecidableEq

/-- The shelf of a store about which the cache holds nothing. -/
def Shelf.bare : Shelf := ⟨none, none, none⟩

namespace Cache

variable {b : Behaviour}

/-- What the cache holds about the store `name`. -/
def shelf (c : Cache) (name : String) : Shelf where
  store := c.stores.get? name
  placement := c.placements.get? name
  schemas := c.schemas.get? name

/-- Every shelf is as it was, or bare. -/
def Thinned (c d : Cache) : Prop := ∀ n, d.shelf n = c.shelf n ∨ d.shelf n = .bare

/-! ### Shelves under the single changes -/

@[simp] theorem shelf_register (c : Cache) (l : ListenerId) (n : String) :
    (c.register l).2.shelf n = c.shelf n := by
  unfold register
  split <;> rfl

@[simp] theorem shelf_unregister (c : Cache) (l : ListenerId) (n : String) :
    (c.unregister l).2.shelf n = c.shelf n := by
  unfold unregister
  split <;> rfl

@[simp] theorem shelf_reportRefreshed (c : Cache) (name n : String) :
    (c.reportRefreshed name).shelf n = c.shelf n := by
  rw [reportRefreshed_eq]
  rfl

@[simp] theorem shelf_reportForgotten (c : Cache) (name n : String) :
    (c.reportForgotten name).shelf n = c.shelf n := by
  rw [reportForgotten_eq]
  rfl

@[simp] theorem shelf_addQuota (c : Cache) (delta : Int) (n : String) :
    (c.addQuota delta).shelf n = c.shelf n :=
  rfl

theorem shelf_takeOut (c : Cache) (name : String) (s : Store) (n : String) :
    (c.takeOut name s).shelf n = if n = name then { c.shelf n with store := none } else c.shelf n := by
  rw [takeOut_eq]
  by_cases hn : n = name <;> simp [shelf, Dict.get?_erase, hn]

theorem shelf_dropRest (c : Cache) (name n : String) :
    (c.dropRest name).shelf n = if n = name then ⟨(c.shelf n).store, none, none⟩ else c.shelf n := by
  by_cases hn : n = name <;> simp [shelf, dropRest, Dict.get?_erase, hn]

theorem shelf_put (c : Cache) (p : Placement) (s : Store) (n : String) :
    (c.put p s).shelf n =
      if n = s.name then ⟨some s, some p, (c.shelf n).schemas⟩ else c.shelf n := by
  by_cases hn : n = s.name <;> simp [shelf, put, note, Dict.get?_insert, hn]

/-! ### Shelves under cascades -/

theorem Thinned.bare {c d : Cache} (h : Thinned c d) {n : String} (hn : c.shelf n = .bare) :
    d.shelf n = .bare := by
  rcases h n with h | h
  · rw [h, hn]
  · exact h

/-- **A cascade only clears shelves.** The shelf of the store being removed is half cleared while
the listeners are told; the rest goes when they have been. -/
theorem cascading_thinned : Cascading Thinned where
  refl c n := Or.inl rfl
  trans {c d e} h₁ h₂ n := by
    rcases h₂ n with h | h
    · rw [h]
      exact h₁ n
    · exact Or.inr h
  register c l n := Or.inl (shelf_register c l n)
  unregister c l n := Or.inl (shelf_unregister c l n)
  called c l s n := Or.inl rfl
  returned c l event s remarks n := Or.inl rfl
  absent c name hs n := by
    rw [shelf_dropRest, shelf_reportForgotten]
    split
    · rename_i hn
      subst hn
      exact Or.inr (by simp [shelf, hs, Shelf.bare])
    · exact Or.inl rfl
  present c d name s _ h n := by
    -- Taking the record out and dropping the rest concern the same shelf.
    have hd := h n
    rw [shelf_takeOut] at hd
    rw [shelf_dropRest]
    split
    · rename_i hn
      rw [if_pos hn] at hd
      rcases hd with hd | hd <;> exact Or.inr (by simp [hd, Shelf.bare])
    · rename_i hn
      rwa [if_neg hn] at hd

theorem thinned_notify (event : StoreEvent) (s : Store) (c : Cache) :
    Thinned c (c.notify b event s).2 :=
  cascading_thinned.notify (fun _ _ _ ↦ Or.inl rfl) c

/-- A removal clears the shelf it is about. -/
theorem shelf_remove_self (name : String) (c : Cache) : (c.remove b name).shelf name = .bare := by
  unfold remove
  rcases hs : c.stores.get? name with - | s
  · simp only [removeWithin, hs]
    rw [shelf_dropRest, if_pos rfl, shelf_reportForgotten]
    simp [shelf, hs, Shelf.bare]
  · have hthin : Thinned (c.takeOut name s)
        (notifyWith (removeWithin b c.stores.size) b .deleted s (c.takeOut name s)).2 :=
      cascading_thinned.callAll (fun name c ↦ cascading_thinned.removeWithin _ name c)
        (fun _ _ _ ↦ Or.inl rfl) _ _
    have hstore := hthin name
    rw [shelf_takeOut, if_pos rfl] at hstore
    simp only [removeWithin, hs]
    rw [shelf_dropRest, if_pos rfl]
    rcases hstore with h | h <;> simp [h, Shelf.bare]

/-- After a removal loop every shelf it was about is clear. -/
theorem shelf_removeAll {names : List String} {n : String} (hn : n ∈ names) (c : Cache) :
    (c.removeAll b names).shelf n = .bare := by
  induction names generalizing c with
  | nil => simp at hn
  | cons name names ih =>
    -- A name may be listed again; the last of its removals counts.
    by_cases hmem : n ∈ names
    · exact ih hmem (c.remove b name)
    · obtain rfl : n = name := by simpa [hmem] using hn
      have hthin : Thinned (c.remove b n) ((c.remove b n).removeAll b names) :=
        cascading_thinned.removeAll names _
      exact hthin.bare (shelf_remove_self n c)

/-- The order of clearing lists every subscribed store. -/
theorem mem_visiting {c : Cache} {n : String} (order : List String) (h : c.stores.get? n ≠ none) :
    n ∈ World.visiting order c := by
  have hkeys : n ∈ c.stores.keys := Classical.byContradiction fun hn ↦ by
    refine h (lookup?_eq_none fun e he hen ↦ hn ?_)
    exact hen ▸ List.mem_map_of_mem he
  unfold World.visiting
  split
  · rename_i hperm
    exact (List.isPerm_iff.1 hperm).mem_iff.2 hkeys
  · exact hkeys

/-- The removal loop of clearing leaves no record. -/
theorem stores_removeAll_visiting (order : List String) (c : Cache) :
    (c.removeAll b (World.visiting order c)).stores = ∅ := by
  refine Dict.ext_get? fun n ↦ ?_
  by_cases hn : n ∈ World.visiting order c
  · exact congrArg Shelf.store (shelf_removeAll (b := b) hn c)
  · have hnone : c.stores.get? n = none :=
      Classical.byContradiction fun h ↦ hn (mem_visiting order h)
    have hthin : Thinned c (c.removeAll b (World.visiting order c)) :=
      cascading_thinned.removeAll _ c
    rcases hthin n with h | h
    · exact (congrArg Shelf.store h).trans hnone
    · exact congrArg Shelf.store h

/-! ### Shelves under installing and filing -/

/-- Installing a record fills its shelf with the record and the placement together, whatever the
listeners clear afterwards; it adds nothing to any other shelf. -/
theorem shelf_install (mode : Install) (p : Placement) (s : Store) (c : Cache) (n : String) :
    (c.install b mode p s).2.shelf n = c.shelf n ∨ (c.install b mode p s).2.shelf n = .bare ∨
      n = s.name ∧ (c.install b mode p s).2.shelf n =
        ⟨some s.completed, some p, (c.shelf n).schemas⟩ := by
  have hput := shelf_put c p s.completed n
  rw [Store.name_completed] at hput
  have hi := installation (b := b) mode p s c
  generalize c.install b mode p s = r at hi ⊢
  cases hi with
  | refused => exact Or.inl rfl
  | passedOver => exact Or.inl rfl
  | unchanged =>
    by_cases hn : n = s.name
    · rw [if_pos hn] at hput
      exact Or.inr (Or.inr ⟨hn, hput⟩)
    · rw [if_neg hn] at hput
      exact Or.inl hput
  | changed =>
    -- The shelf is filled before the listeners are told, and they can only clear it.
    have hthin := thinned_notify (b := b) .changed s.completed
      ((c.put p s.completed).addQuota
        (s.completed.quota - ((c.stores.get? s.name).map Store.quota).getD 0))
    rcases hthin n with h | h
    · rw [shelf_addQuota, hput] at h
      by_cases hn : n = s.name
      · rw [if_pos hn] at h
        exact Or.inr (Or.inr ⟨hn, h⟩)
      · rw [if_neg hn] at h
        exact Or.inl h
    · exact Or.inr (Or.inl h)

/-- Filing a schema set puts it on a shelf that has a record, and does nothing else. -/
theorem shelf_file (name : String) (d : SchemaSet) (c : Cache) (n : String) :
    (c.file name d).2.shelf n = c.shelf n ∨
      n = name ∧ (c.shelf n).store ≠ none ∧
        (c.file name d).2.shelf n = { c.shelf n with schemas := some d } := by
  have hf := filing name d c
  generalize c.file name d = r at hf ⊢
  cases hf with
  | refused => exact Or.inl rfl
  | absent => exact Or.inl rfl
  | filed hphase hs =>
    by_cases hn : n = name
    · subst hn
      exact Or.inr ⟨rfl, by simp [shelf, hs], by simp [shelf, note, Dict.get?_insert]⟩
    · exact Or.inl (by simp [shelf, note, Dict.get?_insert, hn])

end Cache

end StoreCache
