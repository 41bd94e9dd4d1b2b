import StoreCache.Catalog

/-!
# Asking a catalog directly

A `Desk` is a catalog with the questions put to it one after the other. It counts them by kind and
keeps the time they have taken.
-/

namespace StoreCache

/-- How many questions of each kind have been asked. -/
structure QuestionCount where
  placements : Nat
  records : Nat
  schemas : Nat
  deriving DecidableEq, Repr

namespace QuestionCount

/-- No question asked. -/
def zero : QuestionCount := ⟨0, 0, 0⟩

/-- One question more. -/
def count (n : QuestionCount) : Question → QuestionCount
  | .placement _ => { n with placements := n.placements + 1 }
  | .record _ _ => { n with records := n.records + 1 }
  | .schemas _ => { n with schemas := n.schemas + 1 }

end QuestionCount

/-- A catalog that is being asked. -/
structure Desk where
  catalog : Catalog
  /-- How long an answer takes, in milliseconds. -/
  latency : Nat
  /-- Milliseconds spent. -/
  now : Nat
  asked : QuestionCount

namespace Desk

/-- A desk at which nothing has been asked. -/
def new (latency : Nat) : Desk := ⟨.empty, latency, 0, .zero⟩

/-- Change the catalog. -/
def edit (d : Desk) (f : Catalog → Catalog) : Desk := { d with catalog := f d.catalog }

/-- Ask a question and wait for the answer. -/
def ask (d : Desk) (q : Question) : Desk :=
  { d with asked := d.asked.count q, now := d.now + d.latency }

end Desk

end StoreCache
