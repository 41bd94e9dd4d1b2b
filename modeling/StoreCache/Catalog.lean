import StoreCache.Source

/-!
# Catalogs

A catalog is metadata held at hand instead of asked for: what is published about each store, and the
failures to be pretended. It answers as a service would that knows exactly this, so `Catalog.source`
is a source, and editing a catalog between two questions is a service that changes between them.

The record of a store is found only on the cluster that its placement names.
-/

namespace StoreCache

/-- Published metadata. -/
structure Catalog where
  placements : Dict String Placement
  stores : Dict String Store
  schemas : Dict String SchemaSet
  /-- Stores about which every question fails. -/
  failures : Dict String FetchError

namespace Catalog

/-- A catalog with nothing in it. -/
def empty : Catalog := ⟨∅, ∅, ∅, ∅⟩

/-- Publish a store on a cluster, with an empty schema set unless it has one. -/
def publish (c : Catalog) (s : Store) (cluster : String) : Catalog :=
  { c with
    placements := c.placements.insert s.name (.new s.name cluster)
    schemas :=
      if c.schemas.contains s.name then c.schemas else c.schemas.insert s.name (.new s.name)
    stores := c.stores.insert s.name s }

/-- Replace the record of a store, wherever it is placed. -/
def update (c : Catalog) (s : Store) : Catalog := { c with stores := c.stores.insert s.name s }

/-- Replace the placement of a store. -/
def place (c : Catalog) (p : Placement) : Catalog :=
  { c with placements := c.placements.insert p.store p }

/-- Replace the schemas of a store. -/
def setSchemas (c : Catalog) (d : SchemaSet) : Catalog :=
  { c with schemas := c.schemas.insert d.store d }

/-- Take everything back that is published about a store. -/
def withdraw (c : Catalog) (name : String) : Catalog :=
  { c with
    placements := c.placements.erase name
    stores := c.stores.erase name
    schemas := c.schemas.erase name }

/-- Let every question about a store fail. -/
def fail (c : Catalog) (name : String) (e : FetchError) : Catalog :=
  { c with failures := c.failures.insert name e }

/-- Let questions about a store be answered again. -/
def heal (c : Catalog) (name : String) : Catalog := { c with failures := c.failures.erase name }

/-- An answer about a store, unless questions about it fail. -/
def unlessFailing {α : Type} (c : Catalog) (name : String) (answer : Except FetchError α) :
    Except FetchError α :=
  match c.failures.get? name with
  | some e => .error e
  | none => answer

/-- What there is, or that there is nothing. -/
def found {α : Type} (name : String) : Option α → Except FetchError α
  | some a => .ok a
  | none => .error (.notFound name)

/-- What a service answers that knows what the catalog holds. -/
def source (c : Catalog) : Source where
  placement name := c.unlessFailing name (.ok (c.placements.get? name))
  record name cluster :=
    c.unlessFailing name <|
      if ((c.placements.get? name).map Placement.cluster) = some cluster then
        found name (c.stores.get? name)
      else .error (.notFound name)
  schemas name := c.unlessFailing name (found name (c.schemas.get? name))

end Catalog

/-- Answers given in the place of a source's own. -/
structure Substitutes where
  placement : Dict String (Except FetchError (Option Placement))
  record : Dict String (Except FetchError Store)
  schemas : Dict String (Except FetchError SchemaSet)

/-- No answer substituted. -/
def Substitutes.none : Substitutes := ⟨∅, ∅, ∅⟩

/-- The source with some of its answers substituted. -/
def Source.substituted (s : Source) (r : Substitutes) : Source where
  placement name := (r.placement.get? name).getD (s.placement name)
  record name cluster := (r.record.get? name).getD (s.record name cluster)
  schemas name := (r.schemas.get? name).getD (s.schemas name)

end StoreCache
