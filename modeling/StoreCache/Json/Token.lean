import StoreCache.Digits

/-!
# JSON lexemes

A JSON text is first cut into lexemes. A lexeme keeps **what was written**, not what it means: a
quoted text is the list of its pieces, a numeral the list of its digits. Whether a surrogate escape
has its partner, or a numeral fits a given integer type, is asked later and only of the parts
somebody reads, because a part nobody reads only has to be well-formed.

`tokens?` refuses whatever is outside the grammar: other blanks than the four of the standard,
control characters inside quotes, unknown escapes, numerals with a leading zero or an empty part.
-/

namespace StoreCache.Json

/-- One unit of a quoted text. -/
inductive Piece
  /-- A character that stands for itself, or one of the one-letter escapes. -/
  | plain (c : Char)
  /-- A four-digit escape, holding a 16-bit code unit. -/
  | unit (n : Nat)
  deriving DecidableEq, Repr

/-- A quoted text as it was written. -/
abbrev Quoted := List Piece

/-- The quoted text with one piece for each character of a string. -/
def Quoted.ofString (s : String) : Quoted := s.toList.map .plain

/-- A numeral as it was written; `fraction` is empty when there is no point. -/
structure Numeral where
  /-- Whether a minus sign stands in front. -/
  negative : Bool
  /-- The digits before the point, most significant first. -/
  whole : List Nat
  /-- The digits after the point. -/
  fraction : List Nat
  /-- The exponent part: whether it is negative, and its digits. -/
  exponent : Option (Bool × List Nat)
  deriving DecidableEq, Repr

/-- A lexeme of a JSON text. -/
inductive Token
  | openBrace
  | closeBrace
  | openBracket
  | closeBracket
  | comma
  | colon
  | null
  | boolean (b : Bool)
  | number (n : Numeral)
  | text (q : Quoted)
  deriving DecidableEq, Repr

/-- The four blanks of JSON: space, tab, line feed, carriage return. -/
def isBlank (c : Char) : Bool := c = ' ' || c = '\t' || c = '\n' || c = '\r'

/-! ### Quoted texts -/

/-- The number that four hexadecimal digits write. -/
def hexUnit? (a b c d : Char) : Option Nat := do
  let a ← digit? 16 a
  let b ← digit? 16 b
  let c ← digit? 16 c
  let d ← digit? 16 d
  return ((a * 16 + b) * 16 + c) * 16 + d

/-- The character a one-letter escape stands for. -/
def escaped? : Char → Option Char
  | '"' => some '"'
  | '\\' => some '\\'
  | '/' => some '/'
  | 'b' => some '\x08'
  | 'f' => some '\x0c'
  | 'n' => some '\n'
  | 'r' => some '\r'
  | 't' => some '\t'
  | _ => none

/-- Read the rest of a quoted text, after its opening quote. -/
def quoted? : List Char → Option (Quoted × List Char)
  | [] => none
  | '"' :: rest => some ([], rest)
  | '\\' :: 'u' :: a :: b :: c :: d :: rest => do
    let n ← hexUnit? a b c d
    let (q, rest) ← quoted? rest
    return (.unit n :: q, rest)
  | '\\' :: e :: rest => do
    let c ← escaped? e
    let (q, rest) ← quoted? rest
    return (.plain c :: q, rest)
  | c :: rest =>
    if ' ' ≤ c ∧ c ≠ '\\' then do
      let (q, rest) ← quoted? rest
      return (.plain c :: q, rest)
    else none

/-- Reading a quoted text uses up at least its closing quote. -/
theorem length_of_quoted? {s rest : List Char} {q : Quoted} (h : quoted? s = some (q, rest)) :
    rest.length < s.length := by
  fun_induction quoted? s generalizing q rest with
  | case1 => simp at h
  | case2 rest' =>
    obtain ⟨rfl, rfl⟩ := by simpa using h
    simp
  | case3 a b c d s ih =>
    simp only [bind, Option.bind_eq_some_iff, pure, Option.some.injEq, Prod.mk.injEq] at h
    obtain ⟨n, -, ⟨q', rest'⟩, h', -, rfl⟩ := h
    have := ih h'
    simp only [List.length_cons]
    omega
  | case4 e s _ ih =>
    simp only [bind, Option.bind_eq_some_iff, pure, Option.some.injEq, Prod.mk.injEq] at h
    obtain ⟨n, -, ⟨q', rest'⟩, h', -, rfl⟩ := h
    have := ih h'
    simp only [List.length_cons]
    omega
  | case5 c s _ _ _ _ ih =>
    simp only [bind, Option.bind_eq_some_iff, pure, Option.some.injEq, Prod.mk.injEq] at h
    obtain ⟨⟨q', rest'⟩, h', -, rfl⟩ := h
    have := ih h'
    simp only [List.length_cons]
    omega
  | case6 => simp at h

/-! ### Numerals -/

/-- The digits at the front of a text. -/
def leadingDigits (s : List Char) : List Nat := (s.takeWhile Char.isDigit).map fun c ↦ c.toNat - 48

/-- What follows the digits at the front of a text. -/
def afterDigits (s : List Char) : List Char := s.dropWhile Char.isDigit

/-- Read the digits after a point, if there is a point; it must be followed by a digit. -/
def fraction? : List Char → Option (List Nat × List Char)
  | '.' :: s => if leadingDigits s = [] then none else some (leadingDigits s, afterDigits s)
  | s => some ([], s)

/-- Read the digits of an exponent, of which there must be one. -/
def exponentDigits? (negative : Bool) (s : List Char) :
    Option (Option (Bool × List Nat) × List Char) :=
  if leadingDigits s = [] then none else some (some (negative, leadingDigits s), afterDigits s)

/-- Read the exponent part of a numeral, if there is one. -/
def exponent? : List Char → Option (Option (Bool × List Nat) × List Char)
  | c :: s =>
    if c = 'e' ∨ c = 'E' then
      match s with
      | '+' :: s => exponentDigits? false s
      | '-' :: s => exponentDigits? true s
      | s => exponentDigits? false s
    else some (none, c :: s)
  | [] => some (none, [])

/-- Read a numeral behind its sign: a lone zero or digits that do not begin with one, then the
optional parts. -/
def numeral? (negative : Bool) (s : List Char) : Option (Numeral × List Char) := do
  let whole := leadingDigits s
  guard (whole ≠ [] ∧ (whole.head? = some 0 → whole.length = 1))
  let (fraction, s) ← fraction? (afterDigits s)
  let (exponent, s) ← exponent? s
  return (⟨negative, whole, fraction, exponent⟩, s)

theorem length_afterDigits_le (s : List Char) : (afterDigits s).length ≤ s.length :=
  (List.dropWhile_sublist _).length_le

/-- Reading digits uses up characters, unless there are none. -/
theorem length_afterDigits_lt {s : List Char} (h : leadingDigits s ≠ []) :
    (afterDigits s).length < s.length := by
  cases s with
  | nil => exact absurd rfl h
  | cons c s =>
    by_cases hc : c.isDigit
    · have := length_afterDigits_le s
      simp only [afterDigits, List.dropWhile_cons, hc, if_true, List.length_cons] at this ⊢
      omega
    · simp [leadingDigits, hc] at h

theorem length_of_fraction? {s rest : List Char} {f : List Nat}
    (h : fraction? s = some (f, rest)) : rest.length ≤ s.length := by
  unfold fraction? at h
  split at h
  · split at h
    · simp at h
    · obtain ⟨-, rfl⟩ := by simpa using h
      exact Nat.le_trans (length_afterDigits_le _) (by simp)
  · obtain ⟨-, rfl⟩ := by simpa using h
    exact Nat.le_refl _

theorem length_of_exponent? {s rest : List Char} {e : Option (Bool × List Nat)}
    (h : exponent? s = some (e, rest)) : rest.length ≤ s.length := by
  have hdigits {b : Bool} {s rest : List Char} {e : Option (Bool × List Nat)}
      (h : exponentDigits? b s = some (e, rest)) : rest.length ≤ s.length := by
    unfold exponentDigits? at h
    split at h
    · simp at h
    · obtain ⟨-, rfl⟩ := by simpa using h
      exact length_afterDigits_le s
  unfold exponent? at h
  split at h
  · split at h
    · split at h
      · exact Nat.le_trans (hdigits h) (by simp only [List.length_cons]; omega)
      · exact Nat.le_trans (hdigits h) (by simp only [List.length_cons]; omega)
      · exact Nat.le_trans (hdigits h) (by simp only [List.length_cons]; omega)
    · obtain ⟨-, rfl⟩ := by simpa using h
      exact Nat.le_refl _
  · obtain ⟨-, rfl⟩ := by simpa using h
    exact Nat.le_refl _

/-- A numeral has a digit, so reading one uses up characters. -/
theorem length_of_numeral? {negative : Bool} {s rest : List Char} {n : Numeral}
    (h : numeral? negative s = some (n, rest)) : rest.length < s.length := by
  unfold numeral? at h
  obtain ⟨_, hw, h⟩ := Option.bind_eq_some_iff.1 h
  obtain ⟨⟨f, s'⟩, hf, h⟩ := Option.bind_eq_some_iff.1 h
  obtain ⟨⟨e, s''⟩, he, h⟩ := Option.bind_eq_some_iff.1 h
  obtain ⟨-, rfl⟩ := Prod.mk.inj (Option.some.inj h)
  have hw' : leadingDigits s ≠ [] := by
    intro hn
    rw [hn] at hw
    cases hw
  exact Nat.lt_of_le_of_lt (Nat.le_trans (length_of_exponent? he) (length_of_fraction? hf))
    (length_afterDigits_lt hw')

/-! ### Lexemes -/

/-- Read one lexeme that does not begin with a blank. -/
def token? : List Char → Option (Token × List Char)
  | '\x7b' :: s => some (.openBrace, s)
  | '\x7d' :: s => some (.closeBrace, s)
  | '[' :: s => some (.openBracket, s)
  | ']' :: s => some (.closeBracket, s)
  | ',' :: s => some (.comma, s)
  | ':' :: s => some (.colon, s)
  | 'n' :: 'u' :: 'l' :: 'l' :: s => some (.null, s)
  | 't' :: 'r' :: 'u' :: 'e' :: s => some (.boolean true, s)
  | 'f' :: 'a' :: 'l' :: 's' :: 'e' :: s => some (.boolean false, s)
  | '"' :: s => (quoted? s).map fun (q, s) ↦ (.text q, s)
  | '-' :: s => (numeral? true s).map fun (n, s) ↦ (.number n, s)
  | s => (numeral? false s).map fun (n, s) ↦ (.number n, s)

/-- A lexeme is never empty. -/
theorem length_of_token? {s rest : List Char} {t : Token} (h : token? s = some (t, rest)) :
    rest.length < s.length := by
  unfold token? at h
  split at h
  case h_10 =>
    obtain ⟨⟨q, r⟩, hq, h⟩ := Option.map_eq_some_iff.1 h
    obtain ⟨-, rfl⟩ := by simpa using h
    have := length_of_quoted? hq
    simp only [List.length_cons]
    omega
  case h_11 =>
    obtain ⟨⟨q, r⟩, hq, h⟩ := Option.map_eq_some_iff.1 h
    obtain ⟨-, rfl⟩ := by simpa using h
    have := length_of_numeral? hq
    simp only [List.length_cons]
    omega
  case h_12 =>
    obtain ⟨⟨q, r⟩, hq, h⟩ := Option.map_eq_some_iff.1 h
    obtain ⟨-, rfl⟩ := by simpa using h
    exact length_of_numeral? hq
  all_goals
    obtain ⟨-, rfl⟩ := by simpa using h
    simp only [List.length_cons]
    omega

/-- Cut a JSON text into its lexemes. -/
def tokens? (s : List Char) : Option (List Token) :=
  match s with
  | [] => some []
  | c :: s =>
    if isBlank c then tokens? s
    else
      match h : token? (c :: s) with
      | none => none
      | some (t, rest) =>
        have := length_of_token? h
        (tokens? rest).map (t :: ·)
termination_by s.length
decreasing_by
  all_goals simp only [List.length_cons] at *
  all_goals omega

end StoreCache.Json
