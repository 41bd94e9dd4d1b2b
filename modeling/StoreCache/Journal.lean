import StoreCache.Listener
import StoreCache.Source

/-!
# Journals

A cache keeps a journal of what it does, **newest entry first**: the fetches it starts, the records
and schema sets that enter and leave, the listeners that come and go, the callbacks it makes, and
what it reports about freshness. Whatever can be noticed from outside is in the journal, and how a
callback ended is not: nothing depends on it.

The journal is also the only thing a listener can base its reactions on besides the event itself, so
a `Behaviour` is a function of it.
-/

namespace StoreCache

/-- What a callback finds when it is made. -/
structure Found where
  /-- The records subscribed. -/
  stores : Dict String Store
  /-- The total read quota. -/
  quota : Int
  deriving DecidableEq

/-- An entry of the journal. -/
inductive Entry
  /-- A fetch was started. -/
  | asked (q : Question)
  /-- A record was put in the place of the one there was, with the placement it came with. -/
  | installed (previous : Option Store) (current : Store) (placement : Placement)
  /-- A record left the cache. -/
  | removed (s : Store)
  /-- A schema set was put into the cache. -/
  | filed (store : String) (schemas : SchemaSet)
  /-- A listener joined the roster. -/
  | registered (listener : ListenerId)
  /-- A listener left the roster. -/
  | unregistered (listener : ListenerId)
  /-- A callback began. -/
  | called (listener : ListenerId) (event : StoreEvent) (s : Store) (found : Found)
  /-- A callback ended. -/
  | returned (listener : ListenerId) (event : StoreEvent) (s : Store) (remarks : List Remark)
  /-- A store was reported as refreshed. -/
  | refreshed (store : String) (time : Nat)
  /-- A store was reported as gone. -/
  | forgotten (store : String)

/-- What each listener does on each event, given the journal so far. -/
abbrev Behaviour := List Entry → ListenerId → StoreEvent → Store → Script

end StoreCache
