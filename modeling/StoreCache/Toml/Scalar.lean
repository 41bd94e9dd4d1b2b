import StoreCache.Json.Record
import StoreCache.Toml.Text

/-!
# TOML scalars

What is not quoted and not a container is a word: a truth value, an integer in one of four radices,
a float, or a date or time. A value is read as the JSON document that stands for it. **JSON has no
word for some values**: an infinity and a value that is no number become `null`, and a date or time
becomes an object with a member of its own, so that no reader takes it for a text.
-/

namespace StoreCache.Toml

open Json (Tree Numeral)

/-! ### Integers and floats -/

/-- The digits of a word in which underscores may stand between digits. -/
def digits? (radix : Nat) : List Char → Option (List Nat)
  | [] => none
  | [c] => (digit? radix c).map ([·])
  | c :: '_' :: rest => do return (← digit? radix c) :: (← digits? radix rest)
  | c :: rest => do return (← digit? radix c) :: (← digits? radix rest)

/-- The digits of a decimal integer, which does not begin with a zero unless it is zero. -/
def decimalDigits? (s : List Char) : Option (List Nat) :=
  if 1 < s.length ∧ s.head? = some '0' then none else digits? 10 s

/-- Cut off a sign; returns whether it is a minus. -/
def cutSign : List Char → Bool × List Char
  | '-' :: rest => (true, rest)
  | '+' :: rest => (false, rest)
  | s => (false, s)

/-- The integer of a word, within 64 bits. -/
def integer? (s : List Char) : Option Int := do
  let i : Int ← match s with
    | '0' :: 'x' :: rest => (digits? 16 rest).map fun ds ↦ natOfDigits 16 ds
    | '0' :: 'o' :: rest => (digits? 8 rest).map fun ds ↦ natOfDigits 8 ds
    | '0' :: 'b' :: rest => (digits? 2 rest).map fun ds ↦ natOfDigits 2 ds
    | _ => do
      let (negative, rest) := cutSign s
      let n := natOfDigits 10 (← decimalDigits? rest)
      pure (if negative then -(n : Int) else n)
  if Int64.minValue.toInt ≤ i ∧ i ≤ Int64.maxValue.toInt then some i else none

/-- Cut a word at the first character of a kind, which is dropped. -/
def cutWord (isMark : Char → Bool) (s : List Char) : List Char × Option (List Char) :=
  (s.takeWhile (!isMark ·), (s.dropWhile (!isMark ·)).tail?)

/-- The exponent of a word: whether it is negative, and its digits. -/
def exponent? (s : List Char) : Option (Bool × List Nat) := do
  let (negative, rest) := cutSign s
  return (negative, ← digits? 10 rest)

/-- The float of a word with a point or an exponent, as a numeral. -/
def float? (s : List Char) : Option Numeral := do
  let (negative, rest) := cutSign s
  let (rest, exponent) := cutWord (fun c ↦ c = 'e' || c = 'E') rest
  let (whole, fraction) := cutWord (· = '.') rest
  guard (exponent.isSome ∨ fraction.isSome)
  let n : Numeral := {
    negative
    whole := ← decimalDigits? whole
    fraction := ← (match fraction with
      | some ds => digits? 10 ds
      | none => some [])
    exponent := ← exponent.mapM exponent? }
  guard n.value?.isSome
  return n

/-- Whether a word is a float without digits. -/
def isSpecialFloat (s : List Char) : Bool :=
  let rest := String.ofList (cutSign s).2
  rest = "inf" || rest = "nan"

/-! ### Dates and times -/

/-- The number of exactly so many digits. -/
def fixed? (size : Nat) (s : List Char) : Option Nat :=
  if s.length = size then natOfDigits? 10 s else none

/-- The number of exactly so many digits, within bounds. -/
def within? (size low high : Nat) (s : List Char) : Option Nat :=
  (fixed? size s).filter fun n ↦ low ≤ n && n ≤ high

/-- The days of a month. -/
def daysIn (year month : Nat) : Nat :=
  if month = 2 then
    if year % 4 = 0 ∧ (year % 100 ≠ 0 ∨ year % 400 = 0) then 29 else 28
  else if [4, 6, 9, 11].contains month then 30
  else 31

/-- Whether a word is a date. -/
def isDate (s : List Char) : Bool :=
  match s.splitOnP (· = '-') with
  | [y, m, d] =>
    match fixed? 4 y, within? 2 1 12 m with
    | some year, some month => (within? 2 1 (daysIn year month) d).isSome
    | _, _ => false
  | _ => false

/-- Whether a word is the time of a day; a minute may have a leap second. -/
def isTime (s : List Char) : Bool :=
  match s.splitOnP (· = ':') with
  | [h, m, rest] =>
    let (seconds, fraction) := cutWord (· = '.') rest
    (within? 2 0 23 h).isSome && (within? 2 0 59 m).isSome && (within? 2 0 60 seconds).isSome &&
      fraction.all fun f ↦ !f.isEmpty && f.all Char.isDigit
  | _ => false

/-- Whether a word is the distance of a time zone, without its sign. -/
def isZone (s : List Char) : Bool :=
  match s.splitOnP (· = ':') with
  | [h, m] => (within? 2 0 23 h).isSome && (within? 2 0 59 m).isSome
  | _ => false

/-- Whether a word is the time of a day, perhaps in a time zone. -/
def isZonedTime (s : List Char) : Bool :=
  let (time, zone) := cutWord (fun c ↦ c = '+' || c = '-') s
  match zone with
  | some z => isTime time && isZone z
  | none => isTime s || (s.getLast?.any (fun c ↦ c = 'Z' || c = 'z') && isTime s.dropLast)

/-- Whether a word is a date, a time, or both. -/
def isMoment (s : List Char) : Bool :=
  isDate s || isTime s ||
    (match s.drop 10 with
      | mark :: time => isDate (s.take 10) && (mark = 'T' || mark = 't') && isZonedTime time
      | [] => false)

/-- What stands for a date or a time. -/
def moment (s : List Char) : Tree := .ofMembers [("$moment", .ofString (String.ofList s))]

/-! ### Words -/

/-- Whether a character may stand in a word. -/
def isWordChar (c : Char) : Bool := c.isAlphanum || "+-._:".toList.contains c

/-- Read a word as a value. -/
def ofWord? (s : List Char) : Option Tree :=
  if s = "true".toList then some (.boolean true)
  else if s = "false".toList then some (.boolean false)
  else if isSpecialFloat s then some .null
  else if isMoment s then some (moment s)
  else match integer? s with
    | some i => some (.ofInt i)
    | none => (float? s).map .number

/-- Read a scalar that is not quoted. A date may be followed by a blank and a time. -/
def word? (s : List Char) : Option (Tree × List Char) :=
  let first := s.takeWhile isWordChar
  let rest := s.drop first.length
  match rest with
  | ' ' :: d :: more =>
    if isDate first ∧ d.isDigit then
      let second := (d :: more).takeWhile isWordChar
      if isZonedTime second then
        some (moment (first ++ ' ' :: second), (d :: more).drop second.length)
      else none
    else (ofWord? first).map (·, rest)
  | _ => (ofWord? first).map (·, rest)

end StoreCache.Toml
