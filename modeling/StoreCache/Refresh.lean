import StoreCache.Cache.Update

/-!
# Refreshing a store

A refresh asks three questions in turn: the placement, the record on the cluster placed, the
schemas. While it waits for an answer anything else may happen to the cache, so a refresh is a
**machine that is resumed**: `Stage` is what it waits for and what it carries along, and
`Refresh.resume` takes it from one answer to the next question or to its end.

The record goes into the cache, with its placement, as soon as it has come; the schemas follow if
the store is still subscribed then. Only a refresh that has gone all the way reports the store as
refreshed.
-/

namespace StoreCache

/-- What a refresh waits for. -/
inductive Stage
  | placement
  /-- The record on the cluster of the placement that has come. -/
  | record (placed : Placement)
  /-- The schemas, after the record has been installed. -/
  | schemas (installed : Store)
  deriving DecidableEq

/-- The question that a refresh of a store has open. -/
def Stage.question (name : String) : Stage → Question
  | .placement => .placement name
  | .record p => .record name p.cluster
  | .schemas _ => .schemas name

/-- How far a refresh has come. -/
inductive Progress
  | waiting (stage : Stage)
  /-- The refresh has ended, with the record it installed, with nothing if the store was
  unsubscribed meanwhile and may not be brought in, or with a refusal. -/
  | ended (result : Except CacheError (Option Store))

namespace Refresh

/-- Begin: ask for the placement. -/
def start (name : String) (c : Cache) : Cache := c.ask (.placement name)

/-- End with a refusal. -/
def refuse (e : CacheError) : Progress := .ended (.error e)

/-- Go on with a placement that has come. -/
def placed (name : String) (answer : Except FetchError (Option Placement)) (c : Cache) :
    Progress × Cache :=
  match answer with
  | .error e => (refuse (.ofFetch name e), c)
  | .ok none => (refuse (.noSuchStore name none), c)
  | .ok (some p) =>
    if p.deleting then
      (refuse (.noSuchStore name (some (.notFound (name ++ " is being deleted")))), c)
    else (.waiting (.record p), c.ask (.record name p.cluster))

/-- Ask for the schemas of a store whose record `s` has been installed. A listener may have
unsubscribed it by then. -/
def askSchemas (name : String) (s : Store) (c : Cache) : Progress × Cache :=
  if c.stores.contains name then (.waiting (.schemas s), c.ask (.schemas name))
  else (refuse (.noSuchStore name none), c)

/-- Go on with a record that has come; it must be the record of the store asked for. -/
def recorded (b : Behaviour) (mode : Cache.Install) (name : String) (p : Placement)
    (answer : Except FetchError Store) (c : Cache) : Progress × Cache :=
  match answer with
  | .error e => (refuse (.ofFetch name e), c)
  | .ok s =>
    if s.name = name then
      match c.install b mode p s with
      | (.error e, c) => (refuse e, c)
      | (.ok none, c) => (.ended (.ok none), c)
      | (.ok (some s), c) => askSchemas name s c
    else
      (refuse (.fetchFailed name
        (.unreadable ("requested store " ++ name ++ " but received " ++ s.name))), c)

/-- Put schemas that have come into the cache. -/
def fileSchemas (name : String) (answer : Except FetchError SchemaSet) (c : Cache) :
    Except CacheError SchemaSet × Cache :=
  match answer with
  | .error e => (.error (.ofFetch name e), c)
  | .ok d =>
    match c.file name d with
    | (.error e, c) => (.error e, c)
    | (.ok (), c) => (.ok d, c)

/-- Finish with schemas that have come. -/
def finished (name : String) (s : Store) (answer : Except FetchError SchemaSet) (c : Cache) :
    Progress × Cache :=
  match fileSchemas name answer c with
  | (.error e, c) => (refuse e, c)
  | (.ok _, c) => (.ended (.ok (some s)), c.reportRefreshed name)

/-- Take a refresh from the answer to its open question as far as it goes without another. -/
def resume (b : Behaviour) (mode : Cache.Install) (name : String) (stage : Stage) (source : Source)
    (c : Cache) : Progress × Cache :=
  match stage with
  | .placement => placed name (source.placement name) c
  | .record p => recorded b mode name p (source.record name p.cluster) c
  | .schemas s => finished name s (source.schemas name) c

end Refresh

end StoreCache
