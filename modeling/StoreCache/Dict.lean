/-!
# Finite maps in key order

Everything the cache holds is keyed: records by store name, schemas by id, timestamps by store name.
A `Dict` is such a map as **the list of its entries by increasing key**, so that two dictionaries
with the same entries are equal, and whatever walks a dictionary meets its keys in one order.

The module holds the operations and the laws by which every later proof sees a dictionary:
`get?_insert`, `get?_erase` and `ext_get?` (a dictionary is its look-ups).
-/

namespace StoreCache

variable {κ α β : Type}

/-! ### Entry lists -/

/-- The value a list of entries gives to key `x`, if any. -/
def lookup? [Ord κ] (x : κ) : List (κ × α) → Option α
  | [] => none
  | (k, a) :: rest => if compare x k = .eq then some a else lookup? x rest

/-- Put the entry of `x` at its place in an ordered list of entries, replacing the one it had. -/
def placeEntry [Ord κ] (x : κ) (v : α) : List (κ × α) → List (κ × α)
  | [] => [(x, v)]
  | (k, a) :: rest =>
    match compare x k with
    | .lt => (x, v) :: (k, a) :: rest
    | .eq => (x, v) :: rest
    | .gt => (k, a) :: placeEntry x v rest

/-- Take the entry of `x` out of a list of entries. -/
def dropEntry [Ord κ] (x : κ) (l : List (κ × α)) : List (κ × α) :=
  l.filter fun e ↦ decide (compare x e.1 ≠ .eq)

/-- The keys of the list strictly increase. -/
def Increasing [Ord κ] (l : List (κ × α)) : Prop :=
  l.Pairwise fun a b ↦ compare a.1 b.1 = .lt

theorem mem_placeEntry [Ord κ] {x : κ} {v : α} {l : List (κ × α)} {e : κ × α}
    (h : e ∈ placeEntry x v l) : e = (x, v) ∨ e ∈ l := by
  induction l with
  | nil => exact Or.inl (by simpa [placeEntry] using h)
  | cons a rest ih =>
    obtain ⟨k, w⟩ := a
    simp only [placeEntry] at h
    split at h
    · simpa using h
    · rcases List.mem_cons.1 h with h | h
      · exact Or.inl h
      · exact Or.inr (List.mem_cons_of_mem _ h)
    · rcases List.mem_cons.1 h with h | h
      · exact Or.inr (h ▸ List.mem_cons_self)
      · exact (ih h).imp_right (List.mem_cons_of_mem _)

theorem Increasing.placeEntry [Ord κ] [Std.TransOrd κ] [Std.LawfulEqOrd κ] {l : List (κ × α)}
    (h : Increasing l) (x : κ) (v : α) : Increasing (StoreCache.placeEntry x v l) := by
  induction l with
  | nil => simp [StoreCache.placeEntry, Increasing]
  | cons a rest ih =>
    obtain ⟨k, w⟩ := a
    obtain ⟨hk, hr⟩ := List.pairwise_cons.1 h
    simp only [StoreCache.placeEntry]
    split
    · rename_i hx
      refine List.pairwise_cons.2 ⟨fun b hb ↦ ?_, h⟩
      rcases List.mem_cons.1 hb with rfl | hb
      · exact hx
      · exact Std.TransCmp.lt_trans hx (hk b hb)
    · rename_i hx
      have hxk : x = k := Std.LawfulEqCmp.eq_of_compare hx
      subst hxk
      exact List.pairwise_cons.2 ⟨hk, hr⟩
    · rename_i hx
      refine List.pairwise_cons.2 ⟨fun b hb ↦ ?_, ih hr⟩
      rcases mem_placeEntry hb with rfl | hb
      · exact Std.OrientedCmp.gt_iff_lt.1 hx
      · exact hk b hb

theorem Increasing.dropEntry [Ord κ] {l : List (κ × α)} (h : Increasing l) (x : κ) :
    Increasing (StoreCache.dropEntry x l) :=
  List.Pairwise.filter _ h

theorem lookup?_placeEntry [Ord κ] [Std.TransOrd κ] [Std.LawfulEqOrd κ] [DecidableEq κ]
    (l : List (κ × α)) (x y : κ) (v : α) :
    lookup? y (placeEntry x v l) = if y = x then some v else lookup? y l := by
  induction l with
  | nil => simp [placeEntry, lookup?]
  | cons a rest ih =>
    obtain ⟨k, w⟩ := a
    simp only [placeEntry]
    split
    · simp [lookup?]
    · rename_i hx
      have hxk : x = k := Std.LawfulEqCmp.eq_of_compare hx
      subst hxk
      by_cases hy : y = x <;> simp [lookup?, hy]
    · rename_i hx
      by_cases hy : y = x
      · subst hy
        simp [lookup?, hx, ih]
      · by_cases hyk : y = k
        · subst hyk
          simp [lookup?, hy]
        · simp [lookup?, hy, ih, hyk]

theorem lookup?_dropEntry [Ord κ] [Std.TransOrd κ] [Std.LawfulEqOrd κ] [DecidableEq κ]
    (l : List (κ × α)) (x y : κ) :
    lookup? y (dropEntry x l) = if y = x then none else lookup? y l := by
  induction l with
  | nil => simp [dropEntry, lookup?]
  | cons a rest ih =>
    obtain ⟨k, w⟩ := a
    unfold dropEntry at ih ⊢
    by_cases hk : x = k
    · subst hk
      by_cases hy : y = x
      · simpa [hy] using ih
      · simpa [hy, lookup?] using ih
    · by_cases hy : y = x
      · subst hy
        simpa [hk, lookup?] using ih
      · by_cases hyk : y = k
        · subst hyk
          simp [hk, hy, lookup?]
        · simpa [hk, hy, hyk, lookup?] using ih

theorem lookup?_eq_none [Ord κ] [Std.LawfulEqOrd κ] {l : List (κ × α)} {x : κ}
    (h : ∀ e ∈ l, e.1 ≠ x) : lookup? x l = none := by
  induction l with
  | nil => rfl
  | cons a rest ih =>
    have ha : x ≠ a.1 := fun e ↦ h a List.mem_cons_self e.symm
    simp [lookup?, ha, ih fun e he ↦ h e (List.mem_cons_of_mem _ he)]

theorem Increasing.ext [Ord κ] [Std.TransOrd κ] [Std.LawfulEqOrd κ] {l m : List (κ × α)}
    (hl : Increasing l) (hm : Increasing m) (h : ∀ x, lookup? x l = lookup? x m) : l = m := by
  have ne_of_lt : ∀ {a b : κ}, compare a b = .lt → b ≠ a := by
    rintro a b hab rfl
    simp at hab
  induction l generalizing m with
  | nil =>
    cases m with
    | nil => rfl
    | cons b m => have := h b.1; simp [lookup?] at this
  | cons a l ih =>
    cases m with
    | nil => have := h a.1; simp [lookup?] at this
    | cons b m =>
      obtain ⟨ha, hl'⟩ := List.pairwise_cons.1 hl
      obtain ⟨hb, hm'⟩ := List.pairwise_cons.1 hm
      have hab : a.1 = b.1 := by
        rcases hc : compare a.1 b.1 with _ | _ | _
        · have := h a.1
          have hne := ne_of_lt hc
          rw [lookup?_eq_none (l := b :: m) (x := a.1)] at this
          · simp [lookup?] at this
          · intro e he
            rcases List.mem_cons.1 he with rfl | he
            · exact hne
            · exact ne_of_lt (Std.TransCmp.lt_trans hc (hb e he))
        · exact Std.LawfulEqCmp.eq_of_compare hc
        · have hc' := Std.OrientedCmp.gt_iff_lt.1 hc
          have := h b.1
          rw [lookup?_eq_none (l := a :: l) (x := b.1)] at this
          · simp [lookup?] at this
          · intro e he
            rcases List.mem_cons.1 he with rfl | he
            · exact ne_of_lt hc'
            · exact ne_of_lt (Std.TransCmp.lt_trans hc' (ha e he))
      have hv : a.2 = b.2 := by
        have := h a.1
        simpa [lookup?, hab] using this
      have hab' : a = b := Prod.ext hab hv
      subst hab'
      refine congrArg (a :: ·) (ih hl' hm' fun x ↦ ?_)
      by_cases hx : x = a.1
      · subst hx
        rw [lookup?_eq_none fun e he ↦ ne_of_lt (ha e he),
          lookup?_eq_none fun e he ↦ ne_of_lt (hb e he)]
      · simpa [lookup?, hx] using h x

theorem Increasing.lookup?_eq_some_iff [Ord κ] [Std.LawfulEqOrd κ] {l : List (κ × α)}
    (h : Increasing l) {x : κ} {v : α} : lookup? x l = some v ↔ (x, v) ∈ l := by
  induction l with
  | nil => simp [lookup?]
  | cons entry l ih =>
    obtain ⟨k, u⟩ := entry
    obtain ⟨hk, hl⟩ := List.pairwise_cons.1 h
    by_cases hx : x = k
    · subst hx
      -- No later entry has the key of the first.
      have hlater : (x, v) ∉ l := fun hmem ↦ by
        have hlt := hk _ hmem
        simp at hlt
      simp [lookup?, hlater, eq_comm]
    · simp [lookup?, hx, ih hl]

/-! ### Dictionaries -/

/-- A finite map from keys to values, listed by increasing key. -/
structure Dict (κ α : Type) [Ord κ] where
  /-- The entries by increasing key. -/
  toList : List (κ × α)
  /-- No key stands twice, and the order is the order of keys. -/
  increasing : Increasing toList

namespace Dict

instance [Ord κ] [DecidableEq κ] [DecidableEq α] : DecidableEq (Dict κ α)
  | ⟨l, _⟩, ⟨m, _⟩ => decidable_of_iff (l = m) (by simp)

/-- The dictionary without entries. -/
def empty [Ord κ] : Dict κ α := ⟨[], List.Pairwise.nil⟩

instance [Ord κ] : EmptyCollection (Dict κ α) := ⟨empty⟩

instance [Ord κ] : Inhabited (Dict κ α) := ⟨∅⟩

section
variable [Ord κ]

/-- The value of a key, if the key is present. -/
def get? (d : Dict κ α) (x : κ) : Option α := lookup? x d.toList

/-- Whether a key is present. -/
def contains (d : Dict κ α) (x : κ) : Bool := (d.get? x).isSome

/-- The keys, increasing. -/
def keys (d : Dict κ α) : List κ := d.toList.map Prod.fst

/-- The values, by increasing key. -/
def values (d : Dict κ α) : List α := d.toList.map Prod.snd

/-- The number of entries. -/
def size (d : Dict κ α) : Nat := d.toList.length

/-- Take out the entry of a key. -/
def erase (d : Dict κ α) (x : κ) : Dict κ α := ⟨dropEntry x d.toList, d.increasing.dropEntry x⟩

/-- The entry of the greatest key. -/
def last? (d : Dict κ α) : Option (κ × α) := d.toList.getLast?

end

section
variable [Ord κ] [Std.TransOrd κ] [Std.LawfulEqOrd κ]

/-- Give a key its value, replacing the one it had. -/
def insert (d : Dict κ α) (x : κ) (v : α) : Dict κ α :=
  ⟨placeEntry x v d.toList, d.increasing.placeEntry x v⟩

/-- The dictionary of a list of entries; of two entries with one key the later wins. -/
def ofList (l : List (κ × α)) : Dict κ α := l.foldl (fun d e ↦ d.insert e.1 e.2) ∅

theorem get?_insert [DecidableEq κ] (d : Dict κ α) (x y : κ) (v : α) :
    (d.insert x v).get? y = if y = x then some v else d.get? y :=
  lookup?_placeEntry d.toList x y v

theorem get?_erase [DecidableEq κ] (d : Dict κ α) (x y : κ) :
    (d.erase x).get? y = if y = x then none else d.get? y :=
  lookup?_dropEntry d.toList x y

/-- **A dictionary is its look-ups.** -/
theorem ext_get? {d e : Dict κ α} (h : ∀ x, d.get? x = e.get? x) : d = e := by
  obtain ⟨l, hl⟩ := d
  obtain ⟨m, hm⟩ := e
  have : l = m := hl.ext hm h
  subst this
  rfl

end

@[simp] theorem get?_empty [Ord κ] (x : κ) : (∅ : Dict κ α).get? x = none := rfl

/-- A look-up finds what is listed. -/
theorem get?_eq_some_iff [Ord κ] [Std.LawfulEqOrd κ] {d : Dict κ α} {x : κ} {v : α} :
    d.get? x = some v ↔ (x, v) ∈ d.toList :=
  d.increasing.lookup?_eq_some_iff

/-- The values of a dictionary are what its look-ups find. -/
theorem mem_values_iff [Ord κ] [Std.LawfulEqOrd κ] {d : Dict κ α} {v : α} :
    v ∈ d.values ↔ ∃ x, d.get? x = some v := by
  simp only [values, get?_eq_some_iff, List.mem_map, Prod.exists, exists_eq_right]

/-- No key is listed twice. -/
theorem nodup_keys [Ord κ] [Std.LawfulEqOrd κ] (d : Dict κ α) : d.keys.Nodup := by
  refine List.pairwise_map.2 (d.increasing.imp fun {x y} hlt heq ↦ ?_)
  rw [heq] at hlt
  simp at hlt

theorem get?_ne_none_of_mem_keys [Ord κ] [Std.LawfulEqOrd κ] {d : Dict κ α} {x : κ}
    (h : x ∈ d.keys) : d.get? x ≠ none := by
  obtain ⟨⟨y, v⟩, hmem, rfl⟩ := List.mem_map.1 h
  rw [get?_eq_some_iff.2 hmem]
  exact Option.some_ne_none v

theorem size_erase_le [Ord κ] (d : Dict κ α) (x : κ) : (d.erase x).size ≤ d.size :=
  List.length_filter_le ..

section
variable [Ord κ] [Std.TransOrd κ] [Std.LawfulEqOrd κ] [DecidableEq κ]

/-- Entries put into a dictionary one after the other are found there, and so is what was there under
other keys. -/
theorem get?_foldl_insert_eq_some_iff {l : List (κ × α)} (hdistinct : (l.map Prod.fst).Nodup)
    (d : Dict κ α) {x : κ} {v : α} :
    (l.foldl (fun d e ↦ d.insert e.1 e.2) d).get? x = some v ↔
      (x, v) ∈ l ∨ x ∉ l.map Prod.fst ∧ d.get? x = some v := by
  induction l generalizing d with
  | nil => simp
  | cons e l ih =>
    obtain ⟨y, u⟩ := e
    obtain ⟨hy, hl⟩ := List.nodup_cons.1 hdistinct
    rw [List.foldl_cons, ih hl, get?_insert]
    by_cases hx : x = y
    · subst hx
      have hother : (x, v) ∉ l := fun hmem ↦ hy (List.mem_map.2 ⟨_, hmem, rfl⟩)
      simp [hy, hother, eq_comm]
    · simp [hx]

/-- **The order of entries does not matter** if no key stands twice. -/
theorem ofList_of_perm {l : List (κ × α)} {d : Dict κ α} (h : l.Perm d.toList) :
    ofList l = d := by
  have hdistinct : (l.map Prod.fst).Nodup := (h.map Prod.fst).nodup_iff.2 d.nodup_keys
  refine ext_get? fun x ↦ Option.ext fun v ↦ ?_
  rw [ofList, get?_foldl_insert_eq_some_iff hdistinct, h.mem_iff, ← get?_eq_some_iff]
  simp

end

end Dict

end StoreCache
