import StoreCache.Dict
import StoreCache.Json.Tree

/-!
# JSON values

The `Value` of a document is what two documents have in common when they are **the same document
written differently**: escapes are resolved, members are in key order with the last of a repeated
key kept, and numerals are numbers. Not every document has a value: an escaped surrogate without its
partner, a numeral beyond the greatest double and a nest of more than `nestingLimit` containers have
none.
-/

namespace StoreCache.Json

/-- The text that a quoted text writes; an escaped surrogate needs its partner next to it. -/
def Quoted.chars? : Quoted → Option (List Char)
  | [] => some []
  | .plain c :: q => (chars? q).map (c :: ·)
  | .unit n :: .unit m :: q =>
    if 0xD800 ≤ n ∧ n < 0xDC00 then
      if 0xDC00 ≤ m ∧ m < 0xE000 then
        (chars? q).map (Char.ofNat (0x10000 + (n - 0xD800) * 0x400 + (m - 0xDC00)) :: ·)
      else none
    else if 0xDC00 ≤ n ∧ n < 0xE000 then none
    else (chars? (.unit m :: q)).map (Char.ofNat n :: ·)
  | .unit n :: q => if 0xD800 ≤ n ∧ n < 0xE000 then none else (chars? q).map (Char.ofNat n :: ·)

/-- The string that a quoted text writes. -/
def Quoted.string? (q : Quoted) : Option String := q.chars?.map String.ofList

/-- A JSON value; the members of an object are by increasing key, each key once. -/
inductive Value
  | null
  | boolean (b : Bool)
  | number (n : Number)
  | text (s : String)
  | array (items : List Value)
  | object (members : List (String × Value))
  deriving Repr

namespace Value

/-- The most containers that may be open at once in a document that has a value. -/
def nestingLimit : Nat := 127

/-- The value of a document with at most `room` containers inside one another. -/
def ofTree? (room : Nat) : Tree → Option Value
  | .null => some .null
  | .boolean b => some (.boolean b)
  | .number n => n.value?.map .number
  | .text q => q.string?.map .text
  | .array items =>
    match room with
    | 0 => none
    | room + 1 => (items.mapM (ofTree? room)).map .array
  | .object members =>
    match room with
    | 0 => none
    | room + 1 =>
      (members.mapM fun m : Quoted × Tree ↦ do
        let key ← m.1.string?
        let v ← ofTree? room m.2
        return (key, v)).map fun ms ↦ .object (Dict.ofList ms).toList

/-- The value of a JSON text. -/
def parse? (s : String) : Option Value := do
  let t ← Tree.parse? s
  ofTree? nestingLimit t

mutual

/-- Whether two values are the same. -/
def same : Value → Value → Bool
  | .null, .null => true
  | .boolean a, .boolean b => a == b
  | .number m, .number n => m == n
  | .text s, .text t => s == t
  | .array l, .array m => sameItems l m
  | .object l, .object m => sameMembers l m
  | _, _ => false

/-- Whether two lists of values are the same, place by place. -/
def sameItems : List Value → List Value → Bool
  | [], [] => true
  | a :: l, b :: m => same a b && sameItems l m
  | _, _ => false

/-- Whether two lists of members are the same, place by place. -/
def sameMembers : List (String × Value) → List (String × Value) → Bool
  | [], [] => true
  | (k, a) :: l, (j, b) :: m => k == j && same a b && sameMembers l m
  | _, _ => false

end

mutual

/-- Values that are found the same are equal. -/
theorem eq_of_same : ∀ {v w : Value}, same v w = true → v = w
  | .null, .null, _ => rfl
  | .boolean a, .boolean b, h => by simp_all [same]
  | .number m, .number n, h => by simp_all [same]
  | .text s, .text t, h => by simp_all [same]
  | .array l, .array m, h => by
    rw [same] at h
    exact congrArg _ (eq_of_sameItems h)
  | .object l, .object m, h => by
    rw [same] at h
    exact congrArg _ (eq_of_sameMembers h)

theorem eq_of_sameItems : ∀ {l m : List Value}, sameItems l m = true → l = m
  | [], [], _ => rfl
  | a :: l, b :: m, h => by
    simp only [sameItems, Bool.and_eq_true] at h
    rw [eq_of_same h.1, eq_of_sameItems h.2]

theorem eq_of_sameMembers : ∀ {l m : List (String × Value)}, sameMembers l m = true → l = m
  | [], [], _ => rfl
  | (k, a) :: l, (j, b) :: m, h => by
    simp only [sameMembers, Bool.and_eq_true, beq_iff_eq] at h
    rw [h.1.1, eq_of_same h.1.2, eq_of_sameMembers h.2]

end

mutual

theorem same_self : ∀ v : Value, same v v = true
  | .null => by simp [same]
  | .boolean b => by simp [same]
  | .number n => by simp [same]
  | .text s => by simp [same]
  | .array l => by simp [same, sameItems_self l]
  | .object l => by simp [same, sameMembers_self l]

theorem sameItems_self : ∀ l : List Value, sameItems l l = true
  | [] => by simp [sameItems]
  | a :: l => by simp [sameItems, same_self a, sameItems_self l]

theorem sameMembers_self : ∀ l : List (String × Value), sameMembers l l = true
  | [] => by simp [sameMembers]
  | (k, a) :: l => by simp [sameMembers, same_self a, sameMembers_self l]

end

/-- **Sameness is equality.** -/
theorem same_iff {v w : Value} : same v w = true ↔ v = w :=
  ⟨eq_of_same, fun h ↦ h ▸ same_self v⟩

instance : DecidableEq Value := fun _ _ ↦ decidable_of_iff _ same_iff

end Value

end StoreCache.Json
