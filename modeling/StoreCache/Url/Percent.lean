import StoreCache.Digits

/-!
# Percent encoding

Outside a small set of characters, the parts of a URL are written as the UTF-8 bytes of their
characters, each byte as a percent sign and two upper-case digits. Every part of a URL has **a set
of its own** of characters that stand for themselves; the smaller the set, the safer the part is
from being taken for a delimiter.

The law of the module is `decode_encode`: in a set without the percent sign, decoding gives back the
bytes.
-/

namespace StoreCache.Url

/-! ### The sets -/

/-- The printable ASCII characters but the space. -/
def isGraphic (c : Char) : Bool := '!' ≤ c && c ≤ '~'

/-- What stands for itself in a fragment. -/
def isFragmentChar (c : Char) : Bool := isGraphic c && !"\"<>\x60".toList.contains c

/-- What stands for itself in a query. -/
def isQueryChar (c : Char) : Bool := isGraphic c && !"\"#<>\x27".toList.contains c

/-- What stands for itself in a path. -/
def isPathChar (c : Char) : Bool := isFragmentChar c && !"#?\x7b\x7d".toList.contains c

/-- What stands for itself in a path segment that is given as data: neither a separator nor a sign
that would be decoded. -/
def isSegmentChar (c : Char) : Bool := isPathChar c && !"/%\\".toList.contains c

/-- What stands for itself in a value of a submitted form. -/
def isFormChar (c : Char) : Bool := c.isAlphanum || "*-._".toList.contains c

/-! ### Encoding and decoding -/

/-- A byte as an escape. -/
def escapeByte (b : UInt8) : List Char :=
  ['%', upperDigit (b.toNat / 16), upperDigit (b.toNat % 16)]

/-- A character as itself or as the escapes of its bytes. -/
def encodeChar (keeps : Char → Bool) (c : Char) : List Char :=
  if keeps c then [c] else (String.utf8EncodeChar c).flatMap escapeByte

/-- A text in which only the characters of a set stand for themselves. -/
def encode (keeps : Char → Bool) (s : List Char) : List Char := s.flatMap (encodeChar keeps)

/-- A name or a value of a submitted form: as `encode`, but a space becomes a plus. -/
def encodeForm (s : List Char) : List Char :=
  s.flatMap fun c ↦ if c = ' ' then ['+'] else encodeChar isFormChar c

/-- The bytes of a text after undoing its escapes; a percent sign without two digits stands for
itself. -/
def decode : List Char → List UInt8
  | [] => []
  | '%' :: a :: b :: rest =>
    match digit? 16 a, digit? 16 b with
    | some h, some l => UInt8.ofNat (h * 16 + l) :: decode rest
    | _, _ => String.utf8EncodeChar '%' ++ decode (a :: b :: rest)
  | c :: rest => String.utf8EncodeChar c ++ decode rest

theorem decode_escapeByte (b : UInt8) (rest : List Char) :
    decode (escapeByte b ++ rest) = b :: decode rest := by
  have hb : b.toNat < 256 := b.toNat_lt
  have h : digit? 16 (upperDigit (b.toNat / 16)) = some (b.toNat / 16) :=
    digit?_upperDigit (by omega)
  have l : digit? 16 (upperDigit (b.toNat % 16)) = some (b.toNat % 16) :=
    digit?_upperDigit (by omega)
  have e : b.toNat / 16 * 16 + b.toNat % 16 = b.toNat := by omega
  simp [escapeByte, decode, h, l, e]

theorem decode_escapes (bs : List UInt8) (rest : List Char) :
    decode (bs.flatMap escapeByte ++ rest) = bs ++ decode rest := by
  induction bs with
  | nil => rfl
  | cons b bs ih =>
    rw [List.flatMap_cons, List.append_assoc, decode_escapeByte, ih, List.cons_append]

theorem decode_cons_of_ne {c : Char} (h : c ≠ '%') (rest : List Char) :
    decode (c :: rest) = String.utf8EncodeChar c ++ decode rest := by
  rw [decode]
  rintro a b rest' rfl
  exact absurd rfl h

/-- **Decoding undoes encoding** in every set that escapes the percent sign. -/
theorem decode_encode {keeps : Char → Bool} (h : keeps '%' = false) (s : List Char) :
    decode (encode keeps s) = s.flatMap String.utf8EncodeChar := by
  induction s with
  | nil => rfl
  | cons c s ih =>
    simp only [encode, List.flatMap_cons] at ih ⊢
    by_cases hc : keeps c
    · have : c ≠ '%' := fun e ↦ by simp [e, h] at hc
      rw [encodeChar, if_pos hc, List.singleton_append, decode_cons_of_ne this, ih]
    · rw [encodeChar, if_neg hc, decode_escapes, ih]

end StoreCache.Url
