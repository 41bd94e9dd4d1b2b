/-!
# Digits

Numbers written in positional notation, in any radix up to thirty-six. Letters of both cases are
digits beyond nine. `natOfDigits?` accepts digits only: no sign, no separator, no blank, and not the
empty text.
-/

namespace StoreCache

/-- The value of a character as a digit in a radix. -/
def digit? (radix : Nat) (c : Char) : Option Nat :=
  let value? :=
    if '0' ≤ c ∧ c ≤ '9' then some (c.toNat - 48)
    else if 'a' ≤ c ∧ c ≤ 'z' then some (c.toNat - 87)
    else if 'A' ≤ c ∧ c ≤ 'Z' then some (c.toNat - 55)
    else none
  value?.filter (· < radix)

/-- The number that digits write, the most significant first. -/
def natOfDigits (radix : Nat) (digits : List Nat) : Nat :=
  digits.foldl (fun n d ↦ n * radix + d) 0

/-- The number that a text of digits writes. -/
def natOfDigits? (radix : Nat) (s : List Char) : Option Nat :=
  if s.isEmpty then none else (s.mapM (digit? radix)).map (natOfDigits radix)

/-- The digit with a value below sixteen, in upper case. -/
def upperDigit (d : Nat) : Char := if d < 10 then Char.ofNat (48 + d) else Char.ofNat (55 + d)

theorem digit?_upperDigit {d : Nat} (h : d < 16) : digit? 16 (upperDigit d) = some d := by
  have all : ∀ e < 16, digit? 16 (upperDigit e) = some e := by decide
  exact all d h

end StoreCache
