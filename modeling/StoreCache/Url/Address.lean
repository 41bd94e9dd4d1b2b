import StoreCache.Digits

/-!
# Numeric hosts

A host that ends in a number is an IPv4 address or nothing. It has up to four numbers, each decimal,
octal behind a zero or hexadecimal behind `0x`; **the last number fills all the bytes that are
left**, so `127.1` is `127.0.0.1`. An IPv6 address is eight 16-bit words, where one pair of colons
may stand for a run of zero words and the last two words may be written as four decimal bytes.

Each kind has one written form: four decimal bytes, and words in lower-case hexadecimal with the
first of the longest runs of two or more zero words left out.
-/

namespace StoreCache.Url

/-! ### IPv4 -/

/-- The number of a part of an IPv4 address; nothing behind a radix mark is zero. -/
def addressNumber? (s : List Char) : Option Nat :=
  match s with
  | '0' :: 'x' :: rest | '0' :: 'X' :: rest =>
    if rest.isEmpty then some 0 else natOfDigits? 16 rest
  | '0' :: c :: rest => natOfDigits? 8 (c :: rest)
  | _ => natOfDigits? 10 s

/-- The parts of a host between its dots, without the empty part behind a last dot. -/
def dottedParts (host : List Char) : List (List Char) :=
  let parts := host.splitOnP (· = '.')
  if 1 < parts.length ∧ parts.getLast? = some [] then parts.dropLast else parts

/-- Whether the last part of a host is a number. -/
def endsInNumber (host : List Char) : Bool :=
  match (dottedParts host).getLast? with
  | none => false
  | some last => (!last.isEmpty && last.all Char.isDigit) || (addressNumber? last).isSome

/-- The address that up to `places` numbers stand for: each is one byte, but the last fills the
rest. -/
def addressOfNumbers? : Nat → List Nat → Option Nat
  | _, [] | 0, _ => none
  | places + 1, [n] => if n < 1 <<< (8 * (places + 1)) then some n else none
  | places + 1, n :: rest =>
    if n < 256 then (addressOfNumbers? places rest).map (n <<< (8 * places) + ·) else none

/-- Read an IPv4 address as a number below `2 ^ 32`. -/
def ipv4? (host : List Char) : Option Nat :=
  ((dottedParts host).mapM addressNumber?).bind (addressOfNumbers? 4)

/-- Write an IPv4 address. -/
def renderIPv4 (a : Nat) : String :=
  ".".intercalate ([24, 16, 8, 0].map fun bits ↦ toString ((a >>> bits) % 256))

/-! ### IPv6 -/

/-- A byte written in decimal without leading zeros. -/
def decimalByte? (s : List Char) : Option Nat :=
  if s.length > 1 ∧ s.head? = some '0' then none else (natOfDigits? 10 s).filter (· < 256)

/-- The word that up to four hexadecimal digits write. -/
def word? (s : List Char) : Option Nat := if s.length ≤ 4 then natOfDigits? 16 s else none

/-- The two words that four decimal bytes write. -/
def dottedWords? (s : List Char) : Option (List Nat) := do
  let [a, b, c, d] ← (s.splitOnP (· = '.')).mapM decimalByte? | none
  return [a * 256 + b, c * 256 + d]

/-- The words between colons; the last part may be four decimal bytes if `closing` is set. -/
def words? (closing : Bool) : List (List Char) → Option (List Nat)
  | [] => some []
  | [s] => if closing ∧ '.' ∈ s then dottedWords? s else (word? s).map ([·])
  | s :: rest => do
    let w ← word? s
    let ws ← words? closing rest
    return w :: ws

/-- The words of one side of the pair of colons; a side may be empty. -/
def side? (closing : Bool) (s : List Char) : Option (List Nat) :=
  if s.isEmpty then some [] else words? closing (s.splitOnP (· = ':'))

/-- Cut a text at its first pair of colons. -/
def cutAtColons : List Char → Option (List Char × List Char)
  | [] => none
  | ':' :: ':' :: rest => some ([], rest)
  | c :: rest => (cutAtColons rest).map fun (before, behind) ↦ (c :: before, behind)

/-- Read an IPv6 address as its eight words. -/
def ipv6? (s : List Char) : Option (List Nat) :=
  match cutAtColons s with
  | none => do
    let ws ← words? true (s.splitOnP (· = ':'))
    if ws.length = 8 then some ws else none
  | some (before, behind) => do
    let ws ← side? false before
    let vs ← side? true behind
    if ws.length + vs.length < 8 then
      some (ws ++ List.replicate (8 - ws.length - vs.length) 0 ++ vs)
    else none

/-- The number of zero words at the beginning of a list. -/
def leadingZeros (ws : List Nat) : Nat := (ws.takeWhile (· = 0)).length

/-- The first of the longest runs of zero words: its place and its length. -/
def longestZeros (ws : List Nat) : Nat × Nat :=
  (List.range ws.length).foldl
    (fun best i ↦ if best.2 < leadingZeros (ws.drop i) then (i, leadingZeros (ws.drop i)) else best)
    (0, 0)

/-- Words in hexadecimal between colons. -/
def renderWords (ws : List Nat) : String :=
  ":".intercalate (ws.map fun w ↦ String.ofList (Nat.toDigits 16 w))

/-- Write an IPv6 address. -/
def renderIPv6 (ws : List Nat) : String :=
  let (start, size) := longestZeros ws
  if size < 2 then renderWords ws
  else renderWords (ws.take start) ++ "::" ++ renderWords (ws.drop (start + size))

end StoreCache.Url
