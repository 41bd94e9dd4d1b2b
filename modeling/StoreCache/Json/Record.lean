import StoreCache.Json.Value

/-!
# Reading records

A record is written either as an object with its fields as members in any order, or as an array of
its fields in their fixed order, which may be cut short. Both become the list of the fields present,
by name. **Only the named fields are looked into**: a member with another name may hold anything
well-formed, but a field that stands twice spoils the record, and so does a key that is no text.

`Fields.required?` and `Fields.optional?` then read one field by a reader for its type. A reader
takes exactly the documents of its type: no text for a number, no fraction for an integer, `null`
only where the field is nullable.
-/

namespace StoreCache.Json

/-- The fields of a record that are present, each name at most once. -/
abbrev Fields := List (String × Tree)

namespace Fields

/-- Collect the members whose keys are among the field names. -/
def ofMembers? (names : List String) : List (Quoted × Tree) → Option Fields
  | [] => some []
  | (key, t) :: members => do
    let key ← key.string?
    let fields ← ofMembers? names members
    if key ∈ names then
      if (fields.lookup key).isSome then none else some ((key, t) :: fields)
    else some fields

/-- The fields that a document gives to a record with the field names `names`. -/
def ofTree? (names : List String) : Tree → Option Fields
  | .object members => ofMembers? names members
  | .array items => if items.length ≤ names.length then some (names.zip items) else none
  | _ => none

/-- Read a field that must be present. -/
def required? {α : Type} (fields : Fields) (name : String) (read? : Tree → Option α) : Option α :=
  (fields.lookup name).bind read?

/-- Read a field that has a value also when it is absent. -/
def optional? {α : Type} (fields : Fields) (name : String) (absent : α) (read? : Tree → Option α) :
    Option α :=
  match fields.lookup name with
  | none => some absent
  | some t => read? t

end Fields

namespace Tree

/-! ### Readers -/

/-- Read a text. -/
def string? : Tree → Option String
  | .text q => q.string?
  | _ => none

/-- Read a truth value. -/
def boolean? : Tree → Option Bool
  | .boolean b => some b
  | _ => none

/-- Read an integer. -/
def integer? : Tree → Option Int
  | .number n => n.integer?
  | _ => none

/-- Read a natural number below a bound. -/
def natBelow? (bound : Nat) (t : Tree) : Option Nat := do
  let i ← t.integer?
  if 0 ≤ i ∧ i < bound then some i.toNat else none

/-- Read an unsigned 32-bit integer. -/
def uint32? (t : Tree) : Option UInt32 := (t.natBelow? UInt32.size).map UInt32.ofNat

/-- Read an unsigned 64-bit integer. -/
def uint64? (t : Tree) : Option UInt64 := (t.natBelow? UInt64.size).map UInt64.ofNat

/-- The signed 32-bit integer of this value, if there is one. -/
def int32OfInt? (i : Int) : Option Int32 :=
  if Int32.minValue.toInt ≤ i ∧ i ≤ Int32.maxValue.toInt then some (Int32.ofInt i) else none

/-- Read a signed 32-bit integer. -/
def int32? (t : Tree) : Option Int32 := t.integer?.bind int32OfInt?

/-- Read a nullable document. -/
def nullable? {α : Type} (read? : Tree → Option α) : Tree → Option (Option α)
  | .null => some none
  | t => (read? t).map some

/-- Read an object of texts; of a repeated key the last member counts. -/
def stringMap? : Tree → Option (Dict String String)
  | .object members =>
    (members.mapM fun m : Quoted × Tree ↦ do
      let key ← m.1.string?
      let s ← m.2.string?
      return (key, s)).map Dict.ofList
  | _ => none

/-- The signed 32-bit integer that a key spells, written as a JSON integer without any escape. -/
def int32Key? (key : Quoted) : Option Int32 := do
  let chars ← key.mapM fun
    | .plain c => some c
    | .unit _ => none
  match tokens? chars with
  | some [.number n] =>
    if chars.any isBlank then none else n.integer?.bind int32OfInt?
  | _ => none

/-- Read an object of texts whose keys are signed 32-bit integers. -/
def int32StringMap? : Tree → Option (Dict Int32 String)
  | .object members =>
    (members.mapM fun m : Quoted × Tree ↦ do
      let key ← int32Key? m.1
      let s ← m.2.string?
      return (key, s)).map Dict.ofList
  | _ => none

/-! ### Writers -/

/-- Write a text. -/
def ofString (s : String) : Tree := .text (Quoted.ofString s)

/-- Write an integer. -/
def ofInt (i : Int) : Tree := .number (Numeral.ofInt i)

/-- Write a natural number. -/
def ofNat (n : Nat) : Tree := ofInt n

/-- Write an object with unescaped keys. -/
def ofMembers (members : List (String × Tree)) : Tree :=
  .object (members.map fun (key, t) ↦ (Quoted.ofString key, t))

/-- Write a nullable document. -/
def ofOption {α : Type} (write : α → Tree) : Option α → Tree
  | none => .null
  | some a => write a

end Tree

end StoreCache.Json
