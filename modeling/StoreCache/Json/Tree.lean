import StoreCache.Json.Number

/-!
# JSON documents

A `Tree` is a document by its shape alone: arrays and objects with their members in the order
written, repeated keys included, and at the leaves the lexemes as written. `Tree.parse?` accepts a
text exactly if it is one JSON document between blanks; it sets no limit to nesting, because a
reader that skips a part does not mind how deep that part is.

The lexemes are put together by a stack of the containers still open, so reading a document is one
pass over its lexemes.
-/

namespace StoreCache.Json

/-- A JSON document as it was written. -/
inductive Tree
  | null
  | boolean (b : Bool)
  | number (n : Numeral)
  | text (q : Quoted)
  | array (items : List Tree)
  | object (members : List (Quoted × Tree))
  deriving Inhabited, Repr

namespace Tree

/-- A container whose closing bracket has not been read; the parts read so far are newest first. -/
inductive Frame
  | array (items : List Tree)
  /-- The key belongs to the value being read. -/
  | object (members : List (Quoted × Tree)) (key : Quoted)

/-- What the reader stands before. -/
inductive Position
  /-- A value must follow. -/
  | value
  /-- An array has just been opened. -/
  | items
  /-- An object has just been opened. -/
  | members
  /-- A comma in an object has just been read. -/
  | member (members : List (Quoted × Tree))
  /-- A value has just been read. -/
  | after (t : Tree)

/-- The document a lexeme is on its own, if it is one. -/
def ofToken? : Token → Option Tree
  | .null => some .null
  | .boolean b => some (.boolean b)
  | .number n => some (.number n)
  | .text q => some (.text q)
  | _ => none

/-- Read on from a position inside the given open containers. -/
def build? : Position → List Frame → List Token → Option Tree
  | .after t, [], [] => some t
  | _, _, [] => none
  | .after t, .array items :: open_, .comma :: ts => build? .value (.array (t :: items) :: open_) ts
  | .after t, .array items :: open_, .closeBracket :: ts =>
    build? (.after (.array (t :: items).reverse)) open_ ts
  | .after t, .object members key :: open_, .comma :: ts =>
    build? (.member ((key, t) :: members)) open_ ts
  | .after t, .object members key :: open_, .closeBrace :: ts =>
    build? (.after (.object ((key, t) :: members).reverse)) open_ ts
  | .after _, _, _ => none
  | .items, open_, .closeBracket :: ts => build? (.after (.array [])) open_ ts
  | .members, open_, .closeBrace :: ts => build? (.after (.object [])) open_ ts
  | .members, open_, .text key :: .colon :: ts => build? .value (.object [] key :: open_) ts
  | .members, _, _ => none
  | .member members, open_, .text key :: .colon :: ts =>
    build? .value (.object members key :: open_) ts
  | .member _, _, _ => none
  | .value, open_, .openBracket :: ts => build? .items open_ ts
  | .value, open_, .openBrace :: ts => build? .members open_ ts
  | .value, open_, t :: ts =>
    match ofToken? t with
    | some t => build? (.after t) open_ ts
    | none => none
  | .items, open_, .openBracket :: ts => build? .items (.array [] :: open_) ts
  | .items, open_, .openBrace :: ts => build? .members (.array [] :: open_) ts
  | .items, open_, t :: ts =>
    match ofToken? t with
    | some t => build? (.after t) (.array [] :: open_) ts
    | none => none

/-- Read a text as one document. -/
def parse? (s : String) : Option Tree := do
  let ts ← tokens? s.toList
  build? .value [] ts

end Tree

end StoreCache.Json
