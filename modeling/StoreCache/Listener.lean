import StoreCache.Phase
import StoreCache.Store

/-!
# Listeners

A listener is told about the records of the cache: that one is new or has changed, that one has
left. What it does when it is told is up to it, and it may call back into the cache. A callback is
therefore a **`Script`**: a finite tree of calls in which what comes next may depend on what a call
returned, with an ending at each leaf. The ending says whether the callback failed; nothing else in
a script does.

Callbacks can register and unregister listeners, unsubscribe stores, and look at the cache. They
cannot wait for anything, so they cannot fetch.
-/

namespace StoreCache

/-- What a listener is told about a record. -/
inductive StoreEvent
  | created
  | changed
  | deleted
  deriving DecidableEq, Repr

/-- What an event is called in messages. -/
def StoreEvent.label : StoreEvent → String
  | .created => "creation"
  | .changed => "update"
  | .deleted => "deletion"

/-- Listeners are told apart by identity. -/
abbrev ListenerId := String

/-- How a callback ends. -/
inductive Ending
  | done
  /-- The callback reports an error. -/
  | failed
  /-- The callback breaks off. -/
  | panicked
  deriving DecidableEq, Repr

/-- Whether an ending counts as a failure. -/
def Ending.isFailure : Ending → Bool
  | .done => false
  | .failed | .panicked => true

/-- What a callback sees of the cache when it looks at a store. -/
structure Glimpse where
  /-- Whether the store is subscribed. -/
  subscribed : Except CacheError Bool
  /-- The total read quota. -/
  quota : Except CacheError Nat
  /-- The cluster the store resolves to. -/
  cluster : Except CacheError (Option String)
  phase : Phase
  /-- The serving version of the store, if subscribed. -/
  version : Except CacheError (Option UInt32)

/-- What a callback does. -/
inductive Script
  | finish (ending : Ending)
  | register (listener : ListenerId) (next : Bool → Script)
  | unregister (listener : ListenerId) (next : Bool → Script)
  | unsubscribe (store : String) (next : Script)
  | look (store : String) (next : Glimpse → Script)

/-- What a callback was told by the calls it made. -/
inductive Remark
  /-- Whether registering or unregistering changed anything. -/
  | changed (b : Bool)
  | saw (g : Glimpse)

end StoreCache
