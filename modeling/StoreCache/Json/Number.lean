import StoreCache.Json.Binary64
import StoreCache.Json.Token

/-!
# JSON numbers

A numeral has one of **three sorts of value**: a non-negative integer below `2 ^ 64`, a negative
integer not below `-2 ^ 63`, or a double. A numeral with a point or an exponent is a double, and so
is an integer out of range and a negative zero. Numbers of different sorts are different numbers:
`1` is not `1.0`.

The double of a numeral comes from its leading digits, as many as fit 64 bits, and one scaling by a
power of ten. Both the leading digits and the power are rounded to doubles first, so the result may
be a unit off the nearest double; two numerals are the same double exactly when this procedure gives
the same result.
-/

namespace StoreCache.Json

/-- The value of a numeral. -/
inductive Number
  /-- A non-negative integer. -/
  | natural (n : Nat)
  /-- The negative of a positive integer. -/
  | negated (n : Nat)
  /-- A double, by sign and rank; zero has no sign. -/
  | double (negative : Bool) (rank : Nat)
  deriving DecidableEq, Repr

/-- Zero and minus zero are one double. -/
def Number.ofRank (negative : Bool) (rank : Nat) : Number :=
  .double (negative && rank != 0) rank

namespace Numeral

/-- The greatest significand, 64 bits. -/
def significandLimit : Nat := UInt64.size - 1

/-- Take digits into a significand while it fits 64 bits; returns the significand and the digits
that did not fit. -/
def takeDigits (significand : Nat) : List Nat → Nat × List Nat
  | [] => (significand, [])
  | d :: ds =>
    if significand * 10 + d ≤ significandLimit then takeDigits (significand * 10 + d) ds
    else (significand, d :: ds)

/-- The double nearest to a power of ten, if it is finite. -/
def powerOfTen? (places : Nat) : Option Nat := Binary64.ofNat? (Nat.pow 10 places)

/-- The most places a double is scaled by at a time: greater powers of ten are no doubles. -/
def stride : Nat := 308

/-- Divide a double by a power of ten, one stride at a time, until nothing is left of it. -/
def scaleDown (rank places : Nat) : Option Nat :=
  if places ≤ stride then do
    let power ← powerOfTen? places
    Binary64.div? rank power
  else if rank = 0 then some 0
  else do
    let power ← powerOfTen? stride
    let rank ← Binary64.div? rank power
    scaleDown rank (places - stride)
termination_by places
decreasing_by
  have : 0 < stride := by decide
  omega

/-- Multiply a double by a power of ten; only zero can be scaled by more than one stride. -/
def scaleUp (rank places : Nat) : Option Nat :=
  if places ≤ stride then do
    let power ← powerOfTen? places
    Binary64.mul? rank power
  else if rank = 0 then some 0
  else none

/-- The greatest exponent a numeral may write. -/
def exponentLimit : Nat := Int32.maxValue.toNatClampNeg

/-- The double nearest to `significand * 10 ^ places`, up to the rounding of the power. -/
def scaled? (significand : Nat) (places : Int) : Option Nat := do
  let rank ← Binary64.ofNat? significand
  if 0 ≤ places then scaleUp rank places.toNat else scaleDown rank (-places).toNat

/-- Keep a decimal exponent within 32 bits. -/
def clampPlaces (places : Int) : Int :=
  max (-(exponentLimit : Int) - 1) (min places exponentLimit)

/-- The double a numeral stands for, if it is finite. -/
def rank? (n : Numeral) : Option Nat :=
  let (significand, dropped) := takeDigits 0 n.whole
  let (significand, ignored) := takeDigits significand n.fraction
  let places : Int := dropped.length - (n.fraction.length - ignored.length : Nat)
  match n.exponent with
  | none => scaled? significand places
  | some (down, digits) =>
    let e := natOfDigits 10 digits
    if e ≤ exponentLimit then
      scaled? significand (clampPlaces (if down then places - e else places + e))
    else if significand = 0 ∨ down then some 0
    else none

/-- The integer a numeral writes, if it has neither point nor exponent; minus zero is no integer. -/
def integer? (n : Numeral) : Option Int :=
  if n.fraction = [] ∧ n.exponent = none then
    let m := natOfDigits 10 n.whole
    if n.negative then if m = 0 then none else some (-(m : Int)) else some m
  else none

/-- The number a numeral stands for; a numeral beyond the greatest double has none. -/
def value? (n : Numeral) : Option Number :=
  match n.integer? with
  | some (.ofNat m) =>
    if m ≤ significandLimit then some (.natural m) else n.rank?.map (Number.ofRank n.negative)
  | some (.negSucc m) =>
    if m ≤ Int64.maxValue.toNatClampNeg then some (.negated (m + 1)) else n.rank?.map (Number.ofRank n.negative)
  | none => n.rank?.map (Number.ofRank n.negative)

/-- The numeral that writes an integer. -/
def ofInt (i : Int) : Numeral :=
  ⟨decide (i < 0), (Nat.toDigits 10 i.natAbs).map fun c ↦ c.toNat - 48, [], none⟩

end Numeral

end StoreCache.Json
