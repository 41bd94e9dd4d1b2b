import StoreCache.Url.Punycode

/-!
# Domain names

The host of a service is mostly a domain name: labels between dots. A name is brought into **one
spelling** before it is used: letters in lower case, full-width forms as ASCII, invisible characters
left out, and a label with letters beyond ASCII in Punycode behind the mark `xn--`. Delimiters,
controls and blanks are in no name, and neither is a label with the mark that is not the Punycode of
such a label.

**The tables cover a few scripts only**: the letters of Latin, Greek, Cyrillic and Armenian, and
full-width forms. A character that no table names stands for itself, and may be in a label. So names
in other scripts, letters composed with combining marks, and the rules for names that run from right
to left are beyond this module, where the full tables of Unicode spell some names otherwise and
refuse others.
-/

namespace StoreCache.Url.Domain

/-! ### Tables -/

/-- A run of characters that stand for others: every `step`-th from `first` to `last` stands for the
one equally far behind `target`. -/
structure Run where
  first : Nat
  last : Nat
  step : Nat
  target : Nat

/-- Whether a run covers a character. -/
def Run.covers (r : Run) (n : Nat) : Bool := r.first ≤ n && n ≤ r.last && (n - r.first) % r.step = 0

/-- Capital letters and what small letters they stand for. -/
def capitals : List Run :=
  [⟨0x41, 0x5A, 1, 0x61⟩, ⟨0xC0, 0xD6, 1, 0xE0⟩, ⟨0xD8, 0xDE, 1, 0xF8⟩, ⟨0x100, 0x12E, 2, 0x101⟩,
   ⟨0x134, 0x136, 2, 0x135⟩, ⟨0x139, 0x13D, 2, 0x13A⟩, ⟨0x141, 0x147, 2, 0x142⟩,
   ⟨0x14A, 0x176, 2, 0x14B⟩, ⟨0x178, 0x178, 1, 0xFF⟩, ⟨0x179, 0x17D, 2, 0x17A⟩,
   ⟨0x386, 0x386, 1, 0x3AC⟩, ⟨0x388, 0x38A, 1, 0x3AD⟩, ⟨0x38C, 0x38C, 1, 0x3CC⟩,
   ⟨0x38E, 0x38F, 1, 0x3CD⟩, ⟨0x391, 0x3A1, 1, 0x3B1⟩, ⟨0x3A3, 0x3AB, 1, 0x3C3⟩,
   ⟨0x400, 0x40F, 1, 0x450⟩, ⟨0x410, 0x42F, 1, 0x430⟩, ⟨0x460, 0x480, 2, 0x461⟩,
   ⟨0x48A, 0x4BE, 2, 0x48B⟩, ⟨0x4C0, 0x4C0, 1, 0x4CF⟩, ⟨0x4C1, 0x4CD, 2, 0x4C2⟩,
   ⟨0x4D0, 0x52E, 2, 0x4D1⟩, ⟨0x531, 0x556, 1, 0x561⟩, ⟨0x1E00, 0x1E94, 2, 0x1E01⟩,
   ⟨0x1EA0, 0x1EFE, 2, 0x1EA1⟩]

/-- Other shapes of a character: raised, circled and full-width ones, and the dots of other scripts.
-/
def variants : List Run :=
  [⟨0xAA, 0xAA, 1, 0x61⟩, ⟨0xB2, 0xB3, 1, 0x32⟩, ⟨0xB5, 0xB5, 1, 0x3BC⟩, ⟨0xB9, 0xB9, 1, 0x31⟩,
   ⟨0xBA, 0xBA, 1, 0x6F⟩, ⟨0x17F, 0x17F, 1, 0x73⟩, ⟨0x24B6, 0x24CF, 1, 0x61⟩,
   ⟨0x24D0, 0x24E9, 1, 0x61⟩, ⟨0x3002, 0x3002, 1, 0x2E⟩, ⟨0xFF01, 0xFF20, 1, 0x21⟩,
   ⟨0xFF21, 0xFF3A, 1, 0x61⟩, ⟨0xFF3B, 0xFF5E, 1, 0x5B⟩, ⟨0xFF61, 0xFF61, 1, 0x2E⟩]

/-- Characters that leave no trace in a name. -/
def invisible : List (Nat × Nat) :=
  [(0xAD, 0xAD), (0x34F, 0x34F), (0x180B, 0x180D), (0x200B, 0x200B), (0x2060, 0x2060),
   (0x2064, 0x2064), (0xFE00, 0xFE0F), (0xFEFF, 0xFEFF), (0xE0100, 0xE01EF)]

/-- Characters that are in no name: controls, blanks, joiners, directions, and codes that no
character has. -/
def refused : List (Nat × Nat) :=
  [(0x00, 0x20), (0x7F, 0xA0), (0xA8, 0xA8), (0xAF, 0xAF), (0xB4, 0xB4), (0xB8, 0xB8),
   (0x2000, 0x200A), (0x200C, 0x200F), (0x2028, 0x202F), (0x205F, 0x205F), (0x2061, 0x2063),
   (0x2065, 0x206F), (0x3000, 0x3000), (0xE000, 0xF8FF), (0xFDD0, 0xFDEF), (0xFFF0, 0xFFFF),
   (0xE0000, 0xE00FF), (0xE01F0, 0x10FFFF)]

/-- Marks that join the character before them and so begin no label. -/
def marks : List (Nat × Nat) :=
  [(0x300, 0x36F), (0x483, 0x489), (0x591, 0x5BD), (0x610, 0x61A), (0x64B, 0x65F), (0x1AB0, 0x1AFF),
   (0x1DC0, 0x1DFF), (0x20D0, 0x20FF), (0xFE20, 0xFE2F)]

/-- Whether a character is in a table of ranges. -/
def within (table : List (Nat × Nat)) (c : Char) : Bool :=
  table.any fun (first, last) ↦ first ≤ c.toNat && c.toNat ≤ last

/-- The ASCII delimiters, which are in no name. -/
def delimiters : List Char := "%#/:<>?@[\\]^|".toList

/-! ### Names -/

/-- The one spelling of a character. -/
def spell (c : Char) : Char :=
  match (capitals ++ variants).find? (·.covers c.toNat) with
  | some r => Char.ofNat (r.target + (c.toNat - r.first))
  | none => c

/-- The one spelling of a text. -/
def spellAll (s : List Char) : List Char := (s.filter (!within invisible ·)).map spell

/-- Whether a character may be in a label. -/
def isLabelChar (c : Char) : Bool := !within refused c && !delimiters.contains c

/-- Whether a text is a label in its one spelling. -/
def isLabel (s : List Char) : Bool :=
  s.all isLabelChar && spellAll s = s && !s.head?.any (within marks)

/-- Whether all characters are ASCII. -/
def isAscii (s : List Char) : Bool := s.all (·.toNat < 128)

/-- What marks a label in Punycode. -/
def mark : List Char := "xn--".toList

/-- Write a label in ASCII. -/
def label? (s : List Char) : Option (List Char) :=
  if !isLabel s then none
  else if mark.isPrefixOf s then
    match Punycode.decode? (s.drop mark.length) with
    | some decoded =>
      if isLabel decoded && !isAscii decoded && mark ++ Punycode.encode decoded = s then some s
      else none
    | none => none
  else if isAscii s then some s
  else some (mark ++ Punycode.encode s)

/-- The one spelling of a domain name, in ASCII. -/
def ofText? (s : List Char) : Option (List Char) := do
  let labels ← ((spellAll s).splitOnP (· = '.')).mapM label?
  return ['.'].intercalate labels

end StoreCache.Url.Domain
