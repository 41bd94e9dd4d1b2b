import StoreCache.Digits

/-!
# Punycode

A label with letters beyond ASCII is written in ASCII as its ASCII letters followed by **the
insertions that restore the others**. An insertion puts a character at a place; insertions go by
increasing character, and of one character by increasing place, so each is a step forward from the
one before, and the number of places it skips says which it is. These numbers are written in base
thirty-six with a digit threshold that adapts to the numbers written so far.

The reader and the writer walk the same insertions and share `Coder.advance`.
-/

namespace StoreCache.Url.Punycode

/-! ### The numbers -/

/-- The threshold of the digit at place `k`: a smaller digit is the last of its number. -/
def threshold (bias k : Nat) : Nat := min 26 (max 1 (36 * (k + 1) - bias))

/-- Divide by thirty-five until at most 455 is left; returns the number of divisions as well. -/
def scale (n divisions : Nat) : Nat × Nat :=
  if 455 < n then scale (n / 35) (divisions + 1) else (n, divisions)
termination_by n
decreasing_by omega

/-- The bias after a number, the `count`-th of the label's characters. -/
def adapt (first : Bool) (number count : Nat) : Nat :=
  let n := if first then number / 700 else number / 2
  let (n, divisions) := scale (n + n / count) 0
  36 * divisions + 36 * n / (n + 38)

/-- A digit in base thirty-six; the letters come first. -/
def digit (d : Nat) : Char := if d < 26 then Char.ofNat (97 + d) else Char.ofNat (22 + d)

/-- The value of a digit. -/
def digitValue? (c : Char) : Option Nat :=
  if 'a' ≤ c ∧ c ≤ 'z' then some (c.toNat - 97)
  else if '0' ≤ c ∧ c ≤ '9' then some (c.toNat - 22)
  else none

theorem one_le_threshold (bias k : Nat) : 1 ≤ threshold bias k := by
  simp only [threshold]
  omega

theorem threshold_le (bias k : Nat) : threshold bias k ≤ 26 := by
  simp only [threshold]
  omega

/-- Write a number, from its digit at place `k` on. -/
def writeNumber (bias k number : Nat) : List Char :=
  if number < threshold bias k then [digit number]
  else
    digit (threshold bias k + (number - threshold bias k) % (36 - threshold bias k)) ::
      writeNumber bias (k + 1) ((number - threshold bias k) / (36 - threshold bias k))
termination_by number
decreasing_by
  have low := one_le_threshold bias k
  have high := threshold_le bias k
  calc (number - threshold bias k) / (36 - threshold bias k)
      ≤ number - threshold bias k := Nat.div_le_self _ _
    _ < number := by omega

/-! ### The insertions -/

/-- How far the insertions have come. -/
structure Coder where
  /-- The code of the character last inserted. -/
  code : Nat
  /-- The place behind it. -/
  place : Nat
  /-- The characters present. -/
  count : Nat
  bias : Nat
  /-- Whether no insertion has been made. -/
  first : Bool

/-- Before any insertion into the given number of ASCII characters. -/
def Coder.new (ascii : Nat) : Coder := ⟨128, 0, ascii, 72, true⟩

/-- The number that stands for the insertion of a character at a place. -/
def Coder.number (s : Coder) (code place : Nat) : Nat :=
  (code - s.code) * (s.count + 1) + place - s.place

/-- The character and the place that a number stands for. -/
def Coder.insertion (s : Coder) (number : Nat) : Nat × Nat :=
  (s.code + (s.place + number) / (s.count + 1), (s.place + number) % (s.count + 1))

/-- Make the insertion that a number stands for. -/
def Coder.advance (s : Coder) (number : Nat) : Coder where
  code := (s.insertion number).1
  place := (s.insertion number).2 + 1
  count := s.count + 1
  bias := adapt s.first number (s.count + 1)
  first := false

/-- The insertions that make a label of its ASCII characters, as codes and places. -/
def insertions (label : List Char) : List (Nat × Nat) :=
  let all := label.zipIdx.filterMap fun (c, i) ↦
    if c.toNat < 128 then none else some (c.toNat, (label.take i).countP (·.toNat ≤ c.toNat))
  all.mergeSort fun a b ↦ a.1 < b.1 || (a.1 = b.1 && a.2 ≤ b.2)

/-- Write insertions. -/
def writeInsertions (s : Coder) : List (Nat × Nat) → List Char
  | [] => []
  | (code, place) :: rest =>
    writeNumber s.bias 0 (s.number code place) ++
      writeInsertions (s.advance (s.number code place)) rest

/-- Write a label in ASCII. -/
def encode (label : List Char) : List Char :=
  let ascii := label.filter (·.toNat < 128)
  ascii ++ (if ascii.isEmpty then [] else ['-']) ++
    writeInsertions (.new ascii.length) (insertions label)

/-- Read insertions into a label, in the middle of the number `number` whose next digit stands at
place `k` and weighs `weight`. -/
def readInsertions (s : Coder) (label : List Char) (k weight number : Nat) :
    List Char → Option (List Char)
  | [] => if k = 0 then some label else none
  | c :: rest =>
    match digitValue? c with
    | none => none
    | some d =>
      let number := number + d * weight
      if d < threshold s.bias k then
        let (code, place) := s.insertion number
        if code.isValidChar then
          readInsertions (s.advance number) (label.insertIdx place (Char.ofNat code)) 0 1 0 rest
        else none
      else readInsertions s label (k + 1) (weight * (36 - threshold s.bias k)) number rest

/-- Read a label from ASCII: the characters before the last hyphen, then the insertions. -/
def decode? (s : List Char) : Option (List Char) :=
  let behind := (s.reverse.takeWhile (· ≠ '-')).reverse
  let ascii := s.take (s.length - behind.length - 1)
  readInsertions (.new ascii.length) ascii 0 1 0 behind

end StoreCache.Url.Punycode
