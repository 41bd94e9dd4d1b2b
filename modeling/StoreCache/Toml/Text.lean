import StoreCache.Digits

/-!
# TOML texts and keys

A text is quoted in one of four ways: with escapes or without, and each of these on one line or over
several. A text over several lines drops the line end right behind its opening quotes, writes every
line end as a line feed, and ends at three quotes, of which up to two more in front belong to it.

A key is written bare or as a text on one line.
-/

namespace StoreCache.Toml

/-- A blank within a line. -/
def isBlank (c : Char) : Bool := c = ' ' || c = '\t'

/-- Whether a character may stand in a comment, and unescaped in a text. -/
def isPlain (c : Char) : Bool := c = '\t' || (' ' ≤ c && c ≠ '\x7f')

/-- Drop the blanks at the beginning. -/
def skipBlanks (s : List Char) : List Char := s.dropWhile isBlank

/-- Drop a line end at the beginning. -/
def lineEnd? : List Char → Option (List Char)
  | '\n' :: rest => some rest
  | '\r' :: '\n' :: rest => some rest
  | _ => none

/-! ### Escapes -/

/-- The character a one-letter escape stands for. -/
def escaped? : Char → Option Char
  | 'b' => some '\x08'
  | 't' => some '\t'
  | 'n' => some '\n'
  | 'f' => some '\x0c'
  | 'r' => some '\r'
  | '"' => some '"'
  | '\\' => some '\\'
  | _ => none

/-- The character with a hexadecimal code. -/
def coded? (digits : List Char) : Option Char := do
  let n ← natOfDigits? 16 digits
  if n.isValidChar then some (Char.ofNat n) else none

/-! ### Texts on one line -/

/-- Read the rest of a text with escapes. -/
def basicRest? : List Char → Option (List Char × List Char)
  | [] => none
  | '"' :: rest => some ([], rest)
  | '\\' :: 'u' :: a :: b :: c :: d :: rest => do
    let x ← coded? [a, b, c, d]
    let (text, rest) ← basicRest? rest
    return (x :: text, rest)
  | '\\' :: 'U' :: a :: b :: c :: d :: e :: f :: g :: h :: rest => do
    let x ← coded? [a, b, c, d, e, f, g, h]
    let (text, rest) ← basicRest? rest
    return (x :: text, rest)
  | '\\' :: e :: rest => do
    let x ← escaped? e
    let (text, rest) ← basicRest? rest
    return (x :: text, rest)
  | c :: rest => do
    guard (isPlain c)
    let (text, rest) ← basicRest? rest
    return (c :: text, rest)

/-- Read the rest of a text without escapes. -/
def literalRest? (s : List Char) : Option (List Char × List Char) :=
  match s.dropWhile fun c ↦ isPlain c && c ≠ '\x27' with
  | '\x27' :: rest => some (s.takeWhile fun c ↦ isPlain c && c ≠ '\x27', rest)
  | _ => none

/-! ### Texts over several lines -/

/-- Whether only blanks stand before the next line end. -/
def endsLine (s : List Char) : Bool := (lineEnd? (skipBlanks s)).isSome

/-- Read the rest of a text with escapes over several lines. While `joining`, blanks and line ends
are dropped: a backslash at the end of a line joins it to what follows. -/
def basicLines? (joining : Bool) : List Char → Option (List Char × List Char)
  | [] => none
  | '"' :: '"' :: '"' :: '"' :: '"' :: rest => some (['"', '"'], rest)
  | '"' :: '"' :: '"' :: '"' :: rest => some (['"'], rest)
  | '"' :: '"' :: '"' :: rest => some ([], rest)
  | '\r' :: '\n' :: rest => do
    let (text, rest) ← basicLines? joining rest
    return (if joining then text else '\n' :: text, rest)
  | '\\' :: 'u' :: a :: b :: c :: d :: rest => do
    let x ← coded? [a, b, c, d]
    let (text, rest) ← basicLines? false rest
    return (x :: text, rest)
  | '\\' :: 'U' :: a :: b :: c :: d :: e :: f :: g :: h :: rest => do
    let x ← coded? [a, b, c, d, e, f, g, h]
    let (text, rest) ← basicLines? false rest
    return (x :: text, rest)
  | '\\' :: e :: rest =>
    if endsLine (e :: rest) then basicLines? true rest
    else do
      let x ← escaped? e
      let (text, rest) ← basicLines? false rest
      return (x :: text, rest)
  | c :: rest =>
    if joining ∧ (c = '\n' ∨ isBlank c) then basicLines? true rest
    else do
      guard (isPlain c ∨ c = '\n')
      let (text, rest) ← basicLines? false rest
      return (c :: text, rest)

/-- Read the rest of a text without escapes over several lines. -/
def literalLines? : List Char → Option (List Char × List Char)
  | [] => none
  | '\x27' :: '\x27' :: '\x27' :: '\x27' :: '\x27' :: rest => some (['\x27', '\x27'], rest)
  | '\x27' :: '\x27' :: '\x27' :: '\x27' :: rest => some (['\x27'], rest)
  | '\x27' :: '\x27' :: '\x27' :: rest => some ([], rest)
  | '\r' :: '\n' :: rest => do
    let (text, rest) ← literalLines? rest
    return ('\n' :: text, rest)
  | c :: rest => do
    guard (isPlain c ∨ c = '\n')
    let (text, rest) ← literalLines? rest
    return (c :: text, rest)

/-- A text without the line end at its beginning. -/
def withoutFirstLineEnd (s : List Char) : List Char := (lineEnd? s).getD s

/-! ### All texts, and keys -/

/-- Read a text on one line, from its opening quote on. -/
def lineText? : List Char → Option (List Char × List Char)
  | '"' :: rest => basicRest? rest
  | '\x27' :: rest => literalRest? rest
  | _ => none

/-- Read a text, from its opening quotes on. -/
def text? : List Char → Option (List Char × List Char)
  | '"' :: '"' :: '"' :: rest => basicLines? false (withoutFirstLineEnd rest)
  | '\x27' :: '\x27' :: '\x27' :: rest => literalLines? (withoutFirstLineEnd rest)
  | s => lineText? s

/-- Whether a character may stand in a bare key. -/
def isBareChar (c : Char) : Bool := c.isAlphanum || c = '-' || c = '_'

/-- Read one part of a key. -/
def keyPart? (s : List Char) : Option (String × List Char) :=
  let bare := s.takeWhile isBareChar
  if bare.isEmpty then (lineText? s).map fun (text, rest) ↦ (String.ofList text, rest)
  else some (String.ofList bare, s.drop bare.length)

/-- The most parts a key may have, and the most values a value may be nested in, less one. -/
def nestingLimit : Nat := 80

/-- Read up to `limit` parts of a key with dots between them, and the blanks around them. -/
def keyParts? : Nat → List Char → Option (List String × List Char)
  | 0, _ => none
  | limit + 1, s => do
    let (part, rest) ← keyPart? (skipBlanks s)
    match skipBlanks rest with
    | '.' :: rest =>
      let (parts, rest) ← keyParts? limit rest
      return (part :: parts, rest)
    | rest => return ([part], rest)

/-- Read a key. -/
def key? (s : List Char) : Option (List String × List Char) := keyParts? (nestingLimit - 1) s

end StoreCache.Toml
