import Mathlib.Data.List.Forall2
import StoreCache.Json.Record

/-!
# What is read of an object

A record is read from an object by looking its fields up among the members. **What is found under
the name of a field does not depend on the order of the members**, nor on how their keys are
written, nor on members that are no fields (`Fields.ofMembers?_of_writes`). It is enough to know
which members there are, each with the name its key writes; the fields among them must be different
ones.

Keys are texts, and a text can be written in many ways. `Spells` says which, from the characters to
what is written for them, and all of them are read as the characters (`Spells.chars?`).
-/

namespace StoreCache.Json

/-! ### Texts -/

/-- The quoted text spells the characters. A character is written as it is, by the escape with its
code unit or, beyond the units of sixteen bits, by the escapes of a pair of surrogates. -/
inductive Spells : Quoted → List Char → Prop
  | nil : Spells [] []
  | plain {q : Quoted} {cs : List Char} (c : Char) (rest : Spells q cs) :
    Spells (.plain c :: q) (c :: cs)
  | unit {q : Quoted} {cs : List Char} (c : Char) (hc : c.toNat < 0x10000) (rest : Spells q cs) :
    Spells (.unit c.toNat :: q) (c :: cs)
  | pair {q : Quoted} {cs : List Char} (c : Char) (hc : 0x10000 ≤ c.toNat) (rest : Spells q cs) :
    Spells (.unit (0xD800 + (c.toNat - 0x10000) / 0x400) ::
      .unit (0xDC00 + (c.toNat - 0x10000) % 0x400) :: q) (c :: cs)

theorem spells_ofString (s : String) : Spells (Quoted.ofString s) s.toList := by
  rw [Quoted.ofString]
  induction s.toList with
  | nil => exact .nil
  | cons c cs ih => exact .plain c ih

/-- A unit that is no surrogate is a character by itself, whatever follows it. -/
theorem Quoted.chars?_unit {n : Nat} (h : n < 0xD800 ∨ 0xE000 ≤ n) (q : Quoted) :
    chars? (.unit n :: q) = (chars? q).map (Char.ofNat n :: ·) := by
  have hhigh : ¬ (0xD800 ≤ n ∧ n < 0xDC00) := by omega
  have hlow : ¬ (0xDC00 ≤ n ∧ n < 0xE000) := by omega
  have hsurrogate : ¬ (0xD800 ≤ n ∧ n < 0xE000) := by omega
  rcases q with - | ⟨c | m, q⟩
  · simp only [chars?, if_neg hsurrogate]
  · simp only [chars?, if_neg hsurrogate]
  · rw [chars?, if_neg hhigh, if_neg hlow]

/-- A pair of surrogates is a character. -/
theorem Quoted.chars?_pair {n m : Nat} (hn : 0xD800 ≤ n ∧ n < 0xDC00)
    (hm : 0xDC00 ≤ m ∧ m < 0xE000) (q : Quoted) :
    chars? (.unit n :: .unit m :: q) =
      (chars? q).map (Char.ofNat (0x10000 + (n - 0xD800) * 0x400 + (m - 0xDC00)) :: ·) := by
  rw [chars?, if_pos hn, if_pos hm]

theorem Spells.chars? {q : Quoted} {cs : List Char} (h : Spells q cs) : q.chars? = some cs := by
  induction h with
  | nil => rfl
  | plain c _ ih => rw [Quoted.chars?, ih, Option.map_some]
  | unit c hc _ ih =>
    have hvalid : c.toNat < 0xD800 ∨ 0xDFFF < c.toNat ∧ c.toNat < 0x110000 := c.valid
    rw [Quoted.chars?_unit (by omega), ih, Option.map_some, Char.ofNat_toNat]
  | pair c hc _ ih =>
    have hvalid : c.toNat < 0xD800 ∨ 0xDFFF < c.toNat ∧ c.toNat < 0x110000 := c.valid
    have hcode : 0x10000 + (0xD800 + (c.toNat - 0x10000) / 0x400 - 0xD800) * 0x400 +
        (0xDC00 + (c.toNat - 0x10000) % 0x400 - 0xDC00) = c.toNat := by
      omega
    rw [Quoted.chars?_pair (by omega) (by omega), ih, Option.map_some, hcode, Char.ofNat_toNat]

theorem Spells.string? {q : Quoted} {s : String} (h : Spells q s.toList) : q.string? = some s := by
  rw [Quoted.string?, h.chars?, Option.map_some, String.ofList_toList]

theorem Tree.string?_ofString (s : String) : (Tree.ofString s).string? = some s :=
  (spells_ofString s).string?

/-- A text is a document if its lexemes make one up. -/
theorem Tree.parse?_of_tokens {s : String} {t : Tree} (ts : List Token)
    (hts : tokens? s.toList = some ts) (ht : build? .value [] ts = some t) :
    parse? s = some t := by
  rw [Tree.parse?, hts]
  exact ht

/-! ### Objects -/

/-- The member writes the field. -/
def Writes (m : Quoted × Tree) (f : String × Tree) : Prop := m.1.string? = some f.1 ∧ m.2 = f.2

/-- An object with these members, in any order and however their keys are written. -/
def Tree.IsObject (t : Tree) (fields : List (String × Tree)) : Prop :=
  ∃ (members : List (Quoted × Tree)) (listed : Fields), t = .object members ∧
    List.Forall₂ Writes members listed ∧ listed.Perm fields

/-- The member is written under the name. -/
def Names (m : Quoted × Tree) (f : String × Tree) : Prop := Spells m.1 f.1.toList ∧ m.2 = f.2

theorem Names.writes {m : Quoted × Tree} {f : String × Tree} (h : Names m f) : Writes m f :=
  ⟨h.1.string?, h.2⟩

theorem names_ofMembers (listed : List (String × Tree)) :
    List.Forall₂ Names (listed.map fun (key, t) ↦ (Quoted.ofString key, t)) listed := by
  induction listed with
  | nil => exact .nil
  | cons f listed ih => exact .cons ⟨spells_ofString f.1, rfl⟩ ih

theorem Tree.isObject_ofMembers (fields : List (String × Tree)) :
    (Tree.ofMembers fields).IsObject fields :=
  ⟨_, fields, rfl, (names_ofMembers fields).imp fun _ _ ↦ Names.writes, .rfl⟩

namespace Fields

theorem lookup_of_perm {fields fields' : Fields} (h : fields.Perm fields')
    (hdistinct : (fields.map Prod.fst).Nodup) (name : String) :
    fields.lookup name = fields'.lookup name := by
  induction h with
  | nil => rfl
  | cons f _ ih =>
    rw [List.map_cons, List.nodup_cons] at hdistinct
    rw [List.lookup_cons, List.lookup_cons, ih hdistinct.2]
  | swap f f' rest =>
    obtain ⟨k, t⟩ := f
    obtain ⟨k', t'⟩ := f'
    have hne : k' ≠ k := fun heq ↦
      (List.nodup_cons.1 hdistinct).1 (by rw [heq]; exact List.mem_cons_self)
    simp only [List.lookup_cons]
    by_cases hk : name = k
    · subst hk
      have : (name == k') = false := by simpa using hne.symm
      simp [this]
    · have : (name == k) = false := by simpa using hk
      simp [this]
  | trans h₁ h₂ ih₁ ih₂ =>
    exact (ih₁ hdistinct).trans (ih₂ ((h₁.map Prod.fst).nodup_iff.1 hdistinct))

theorem lookup_eq_none {fields : Fields} {name : String} (h : name ∉ fields.map Prod.fst) :
    fields.lookup name = none :=
  List.lookup_eq_none_iff.2 fun _ hf ↦
    bne_iff_ne.2 fun heq ↦ h (heq ▸ List.mem_map_of_mem hf)

/-- The members of a list that are fields by these names. -/
def among (names : List String) (listed : Fields) : Fields := listed.filter (·.1 ∈ names)

theorem among_eq_self {names : List String} {listed : Fields} (h : ∀ f ∈ listed, f.1 ∈ names) :
    among names listed = listed :=
  List.filter_eq_self.2 fun f hf ↦ decide_eq_true (h f hf)

theorem among_eq_nil {names : List String} {listed : Fields} (h : ∀ f ∈ listed, f.1 ∉ names) :
    among names listed = [] :=
  List.filter_eq_nil_iff.2 fun f hf ↦ by simpa using h f hf

/-- **What is collected of the members are the fields among them**, if no field stands twice. -/
theorem ofMembers?_of_writes {names : List String} {members : List (Quoted × Tree)}
    {listed : Fields} (h : List.Forall₂ Writes members listed)
    (hdistinct : ((among names listed).map Prod.fst).Nodup) :
    ofMembers? names members = some (among names listed) := by
  induction h with
  | nil => rfl
  | @cons m f members listed hwrites _ ih =>
    obtain ⟨key, t⟩ := m
    obtain ⟨hkey, rfl⟩ := hwrites
    by_cases hname : f.1 ∈ names
    · have hcons : among names (f :: listed) = f :: among names listed :=
        List.filter_cons_of_pos (decide_eq_true hname)
      rw [hcons, List.map_cons, List.nodup_cons] at hdistinct
      simp only [ofMembers?, hkey, ih hdistinct.2, hname, hcons, lookup_eq_none hdistinct.1,
        Option.bind_eq_bind, Option.bind_some, if_true, Option.isSome_none, Bool.false_eq_true,
        if_false]
    · -- A member with another name is passed over.
      have hcons : among names (f :: listed) = among names listed :=
        List.filter_cons_of_neg (by simpa using hname)
      rw [hcons] at hdistinct
      simp only [ofMembers?, hkey, ih hdistinct, hname, hcons, Option.bind_eq_bind,
        Option.bind_some, if_false]

/-- What is read of an object is its members. -/
theorem ofTree?_of_isObject (names : List String) {t : Tree} {fields : List (String × Tree)}
    (h : t.IsObject fields) (hdistinct : (fields.map Prod.fst).Nodup)
    (hnames : ∀ f ∈ fields, f.1 ∈ names) :
    ∃ listed, ofTree? names t = some listed ∧
      ∀ name, listed.lookup name = fields.lookup name := by
  obtain ⟨members, listed, rfl, hwrites, hperm⟩ := h
  have hdistinct' := (hperm.map Prod.fst).nodup_iff.2 hdistinct
  have hself : among names listed = listed :=
    among_eq_self fun f hf ↦ hnames f (hperm.mem_iff.1 hf)
  have hread : ofMembers? names members = some (among names listed) :=
    ofMembers?_of_writes hwrites (hself.symm ▸ hdistinct')
  exact ⟨listed, hself ▸ hread, lookup_of_perm hperm hdistinct'⟩

end Fields

end StoreCache.Json
