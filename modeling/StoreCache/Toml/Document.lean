import StoreCache.Toml.Scalar
import StoreCache.Toml.Table

/-!
# TOML documents

A document is a list of statements, one a line: a header opens a table, a key defines a value in the
table opened last. Only texts and lists may go on over several lines. `parse?` reads a document as
the JSON document that says the same.

The readers of values take the beginning of a text and return the rest. Reading ends because
**values are nested to a limited depth**, because a container has fewer parts than characters, and
because every statement uses some of the text up.
-/

namespace StoreCache.Toml

open Json (Tree)

/-! ### Between the statements -/

/-- Drop blanks, line ends and comments, perhaps from the middle of a comment on. -/
def skipLines (inComment : Bool) : List Char → List Char
  | [] => []
  | '\r' :: '\n' :: rest => skipLines false rest
  | '\n' :: rest => skipLines false rest
  | c :: rest =>
    if inComment ∧ isPlain c then skipLines true rest
    else if c = '#' then skipLines true rest
    else if isBlank c ∧ !inComment then skipLines false rest
    else c :: rest

/-- End a statement: at the end of its line or of the document, behind blanks and a comment. -/
def endStatement? (s : List Char) : Option (List Char) :=
  let s := skipBlanks s
  let s := if s.head? = some '#' then s.dropWhile isPlain else s
  if s.isEmpty then some [] else lineEnd? s

/-! ### Values -/

mutual

/-- Read a value that may hold values down to the given depth. -/
def value? (depth : Nat) (s : List Char) : Option (Tree × List Char) :=
  match s with
  | '[' :: rest =>
    match depth with
    | 0 => none
    | depth + 1 => do
      let (items, rest) ← items? depth (skipLines false rest) s.length
      return (.array items, rest)
  | '\x7b' :: rest =>
    match depth with
    | 0 => none
    | depth + 1 => do
      match skipBlanks rest with
      | '\x7d' :: rest => return (.object [], rest)
      | rest =>
        let (t, rest) ← entries? depth .new rest s.length
        return (t.toTree, rest)
  | '"' :: _ | '\x27' :: _ =>
    (text? s).map fun (text, rest) ↦ (.ofString (String.ofList text), rest)
  | _ => word? s
termination_by (depth, 0)

/-- Read the items of a list up to its closing bracket; `budget` bounds their number. -/
def items? (depth : Nat) (s : List Char) (budget : Nat) : Option (List Tree × List Char) :=
  match s, budget with
  | ']' :: rest, _ => some ([], rest)
  | _, 0 => none
  | s, budget + 1 => do
    let (item, rest) ← value? depth s
    match skipLines false rest with
    | ']' :: rest => return ([item], rest)
    | ',' :: rest =>
      let (items, rest) ← items? depth (skipLines false rest) budget
      return (item :: items, rest)
    | _ => none
termination_by (depth, budget + 1)

/-- Read the entries of a table in braces up to its closing brace; `budget` bounds their number. -/
def entries? (depth : Nat) (t : Table) (s : List Char) (budget : Nat) :
    Option (Table × List Char) :=
  match budget with
  | 0 => none
  | budget + 1 => do
    let (key, rest) ← key? s
    let '=' :: rest := rest | none
    let (v, rest) ← value? depth (skipBlanks rest)
    let t ← t.defineKey key v
    match skipBlanks rest with
    | '\x7d' :: rest => return (t, rest)
    | ',' :: rest => entries? depth t rest budget
    | _ => none
termination_by (depth, budget + 1)

end

/-! ### Statements -/

/-- A line of a document. -/
inductive Statement
  /-- Open a table. -/
  | header (key : List String)
  /-- Open one more table of a list. -/
  | element (key : List String)
  /-- Define a value. -/
  | definition (key : List String) (v : Tree)

/-- Read one statement. -/
def statement? : List Char → Option (Statement × List Char)
  | '[' :: '[' :: rest => do
    let (key, rest) ← key? rest
    let ']' :: ']' :: rest := rest | none
    return (.element key, rest)
  | '[' :: rest => do
    let (key, rest) ← key? rest
    let ']' :: rest := rest | none
    return (.header key, rest)
  | s => do
    let (key, rest) ← key? s
    let '=' :: rest := rest | none
    let (v, rest) ← value? (nestingLimit - 1) (skipBlanks rest)
    return (.definition key v, rest)

/-- Read all statements. -/
def statements? (s : List Char) : Option (List Statement) :=
  match skipLines false s with
  | [] => some []
  | start => do
    let (statement, rest) ← statement? start
    let rest ← endStatement? rest
    if _h : rest.length < s.length then return statement :: (← statements? rest) else none
termination_by s.length

/-- Follow statements, in the table opened last. -/
def follow (t : Table) (current : List String) : List Statement → Option Table
  | [] => some t
  | .header key :: rest => do follow (← t.openTable key) key rest
  | .element key :: rest => do follow (← t.openElement key) key rest
  | .definition key v :: rest => do follow (← t.defineIn current key v) current rest

/-- A document without the mark that may stand at its beginning. -/
def withoutMark : List Char → List Char
  | c :: rest => if c = Char.ofNat 0xFEFF then rest else c :: rest
  | [] => []

/-- Read a document. -/
def parse? (text : String) : Option Tree := do
  let statements ← statements? (withoutMark text.toList)
  return (← follow .new [] statements).toTree

end StoreCache.Toml
