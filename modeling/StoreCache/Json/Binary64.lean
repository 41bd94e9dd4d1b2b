/-!
# Double-precision magnitudes, exactly

A non-negative double is named by its **rank**: its place among all non-negative doubles in
increasing order, with zero at 0. The rank is the number that the 63 value bits spell, so doubles
compare as natural numbers do, and nothing here needs floating-point arithmetic.

A rank below `Binary64.infinity` stands for `significand * 2 ^ (exponent - 1074)`. `Binary64.round?`
gives the double nearest to a quotient of natural numbers, a tie going to the even rank, and nothing
when the quotient is beyond the greatest double.
-/

namespace StoreCache.Binary64

/-- The first rank beyond the finite doubles. -/
def infinity : Nat := 2047 <<< 52

/-- The significand of the double of a rank, scaled so that `exponent` is its exponent. -/
def significand (rank : Nat) : Nat :=
  if rank >>> 52 = 0 then rank else (1 <<< 52) + rank % (1 <<< 52)

/-- The exponent of the double of a rank, counted from the least positive double `2 ^ (-1074)`. -/
def exponent (rank : Nat) : Nat := (rank >>> 52) - 1

/-- The whole number nearest to a quotient, a tie going to the even one. -/
def nearest (num den : Nat) : Nat :=
  let q := num / den
  let r := num % den
  if 2 * r < den then q
  else if den < 2 * r then q + 1
  else if q % 2 = 0 then q else q + 1

/-- The exponent, counted from the least positive double, at which `num / den` has a 53-bit
significand; zero for quotients too small for one. The quotient is `2 ^ 1074` times the value. -/
def exponentFor (num den : Nat) : Nat :=
  let guess := (num.log2 - den.log2) - 52
  if num / (den <<< guess) < 1 <<< 53 then
    if num / (den <<< guess) < 1 <<< 52 then guess - 1 else guess
  else guess + 1

/-- The double nearest to `num / den`, if it is finite. -/
def round? (num den : Nat) : Option Nat :=
  let scaled := num <<< 1074
  let e := exponentFor scaled den
  let rank := (e <<< 52) + nearest scaled (den <<< e)
  if rank < infinity then some rank else none

/-- The double nearest to a whole number, if it is finite. -/
def ofNat? (n : Nat) : Option Nat := round? n 1

/-- The double nearest to the product of two doubles, if it is finite. -/
def mul? (a b : Nat) : Option Nat :=
  round? ((significand a * significand b) <<< (exponent a + exponent b)) (1 <<< 2148)

/-- The double nearest to the quotient of two doubles, if it is finite. -/
def div? (a b : Nat) : Option Nat :=
  round? (significand a <<< exponent a) (significand b <<< exponent b)

end StoreCache.Binary64
