import StoreCache.Json.Record

/-!
# TOML tables

A TOML document fills one table, key by key and header by header, and **a place is filled once**.
What makes this delicate is that tables also come about on the way to others. A table knows its
`Origin`:

* a *header* table was opened by a header, and cannot be opened again;
* a *path* table stands on the way to a header, and may still be opened by one of its own;
* a *dotted* table stands on the way in a key with dots, and is extended by such keys only.

Values are closed: no key and no header leads into one.
-/

namespace StoreCache.Toml

open Json (Tree Quoted)

/-- How a table came about. -/
inductive Origin
  | header
  | path
  | dotted
  deriving DecidableEq, Repr

/-- What stands under a key. -/
inductive Item
  /-- A value, which cannot be extended. -/
  | value (t : Tree)
  | table (origin : Origin) (entries : List (String × Item))
  /-- The tables of a list of tables, the last one first; each was opened by a header. -/
  | tables (last : List (String × Item)) (earlier : List (List (String × Item)))

/-- A table under construction: its keys in the order in which they came. -/
structure Table where
  origin : Origin
  entries : List (String × Item)

namespace Table

/-- An empty table opened by a header, as the whole document is. -/
def new : Table := ⟨.header, []⟩

/-- What stands under a key. -/
def get? (t : Table) (key : String) : Option Item := t.entries.lookup key

/-- Put an item under a key, in the place of what stood there. -/
def set (t : Table) (key : String) (item : Item) : Table :=
  { t with
    entries :=
      if (t.entries.lookup key).isSome then
        t.entries.map fun e ↦ if e.1 = key then (key, item) else e
      else t.entries ++ [(key, item)] }

/-- Change the table at the end of a path. Tables missing on the way are made; `dotted` says whether
the path belongs to a key with dots, which does not lead through header tables. -/
def change (dotted : Bool) (f : Table → Option Table) : List String → Table → Option Table
  | [], t => f t
  | key :: path, t =>
    match t.get? key with
    | none => do
      let child ← change dotted f path ⟨if dotted then .dotted else .path, []⟩
      return t.set key (.table child.origin child.entries)
    | some (.value _) => none
    | some (.table origin entries) => do
      if dotted ∧ origin = .header then none
      else
        let child ← change dotted f path ⟨origin, entries⟩
        return t.set key (.table child.origin child.entries)
    | some (.tables last earlier) => do
      let child ← change dotted f path ⟨.header, last⟩
      return t.set key (.tables child.entries earlier)

/-- Put a value under a new key of the table at the end of a path of dots. A table that dots did not
make is not reached by dots, and one that they made is reached by nothing else. -/
def define (path : List String) (key : String) (v : Tree) : Table → Option Table :=
  change true
    (fun t ↦
      if (t.origin = .dotted ↔ path ≠ []) ∧ (t.get? key).isNone then some (t.set key (.value v))
      else none)
    path

/-- Define a key with dots. -/
def defineKey (key : List String) (v : Tree) (t : Table) : Option Table :=
  match key.getLast? with
  | some last => define key.dropLast last v t
  | none => none

/-- Open a table by a header. -/
def openTable (key : List String) (t : Table) : Option Table :=
  match key.getLast? with
  | none => none
  | some last =>
    t |> change false
      (fun t ↦
        match t.get? last with
        | none => some (t.set last (.table .header []))
        | some (.table .path entries) => some (t.set last (.table .header entries))
        | some _ => none)
      key.dropLast

/-- Open one more table of a list of tables. -/
def openElement (key : List String) (t : Table) : Option Table :=
  match key.getLast? with
  | none => none
  | some last =>
    t |> change false
      (fun t ↦
        match t.get? last with
        | none => some (t.set last (.tables [] []))
        | some (.tables newest earlier) => some (t.set last (.tables [] (newest :: earlier)))
        | some _ => none)
      key.dropLast

/-- Define a key of the table that was opened last. -/
def defineIn (current key : List String) (v : Tree) (t : Table) : Option Table :=
  t |> change false (defineKey key v) current

end Table

/-! ### The finished document -/

mutual

/-- The document of an item. -/
def Item.toTree : Item → Tree
  | .value t => t
  | .table _ entries => .object (membersOf entries)
  | .tables last earlier => .array (elementsOf earlier ++ [.object (membersOf last)])

/-- The members of a table. -/
def membersOf : List (String × Item) → List (Quoted × Tree)
  | [] => []
  | (key, item) :: rest => (Quoted.ofString key, item.toTree) :: membersOf rest

/-- The documents of tables that come last one first, in their order. -/
def elementsOf : List (List (String × Item)) → List Tree
  | [] => []
  | entries :: earlier => elementsOf earlier ++ [.object (membersOf entries)]

end

/-- The document of a table. -/
def Table.toTree (t : Table) : Tree := .object (membersOf t.entries)

end StoreCache.Toml
