/-!
# Bytes as text

Text arrives as UTF-8. Where a text has to be shown whatever was sent, `Utf8.repair` reads **every
byte sequence**: a sequence of bytes that begins a character and does not end it is replaced as a
whole by one replacement character, and so is each byte that begins none.
-/

namespace StoreCache.Utf8

/-- The character that stands for what cannot be read. -/
def replacement : Char := Char.ofNat 0xFFFD

/-- A character begun and not ended. -/
structure Begun where
  /-- The bytes still missing. -/
  missing : Nat
  /-- The least next byte. -/
  low : Nat
  /-- The greatest next byte. -/
  high : Nat
  /-- The code so far. -/
  code : Nat

/-- What a byte begins: a character of its own, a longer one, or nothing. -/
inductive Lead
  | whole (c : Char)
  | begun (b : Begun)
  | stray

/-- What a byte begins. Overlong forms, surrogates and codes above the last character are excluded
by the range of the second byte. -/
def lead (b : UInt8) : Lead :=
  let n := b.toNat
  if n < 0x80 then .whole (Char.ofNat n)
  else if n < 0xC2 then .stray
  else if n < 0xE0 then .begun ⟨1, 0x80, 0xBF, n - 0xC0⟩
  else if n < 0xF0 then
    .begun ⟨2, if n = 0xE0 then 0xA0 else 0x80, if n = 0xED then 0x9F else 0xBF, n - 0xE0⟩
  else if n < 0xF5 then
    .begun ⟨3, if n = 0xF0 then 0x90 else 0x80, if n = 0xF4 then 0x8F else 0xBF, n - 0xF0⟩
  else .stray

/-- Read bytes, possibly in the middle of a character; nothing stands for what cannot be read. -/
def decodeFrom : Option Begun → List UInt8 → List (Option Char)
  | none, [] => []
  | some _, [] => [none]
  | begun, b :: rest =>
    let afresh : List (Option Char) :=
      match lead b with
      | .whole c => some c :: decodeFrom none rest
      | .begun s => decodeFrom (some s) rest
      | .stray => none :: decodeFrom none rest
    match begun with
    | none => afresh
    | some s =>
      if s.low ≤ b.toNat ∧ b.toNat ≤ s.high then
        let code := s.code * 64 + b.toNat % 64
        if s.missing ≤ 1 then some (Char.ofNat code) :: decodeFrom none rest
        else decodeFrom (some ⟨s.missing - 1, 0x80, 0xBF, code⟩) rest
      else none :: afresh

/-- Read bytes as text, whatever they are. -/
def repair (bytes : List UInt8) : String :=
  String.ofList ((decodeFrom none bytes).map (·.getD replacement))

/-- Read bytes as text, if they are. -/
def text? (bytes : List UInt8) : Option String := String.fromUTF8? (ByteArray.mk bytes.toArray)

end StoreCache.Utf8
