import StoreCache.FetchError

/-!
# Refused calls

Why a call on the cache was refused. A failed fetch reaches the caller in one of two ways: a failure
that says the store is gone becomes `noSuchStore`, any other becomes `fetchFailed`, and the call may
be tried again.
-/

namespace StoreCache

/-- Why a call on the cache was refused. -/
inductive CacheError
  /-- The cache has not been started. -/
  | notStarted
  /-- The cache has been shut down. -/
  | cleared
  /-- A cache that has been shut down cannot be started. -/
  | alreadyCleared
  /-- The store is not subscribed, or does not exist; the cause is the failed fetch that said so. -/
  | noSuchStore (store : String) (cause : Option FetchError)
  /-- A schema asked for does not exist, or the text asked about is no schema. -/
  | invalidSchema (store : String) (detail : String)
  /-- The store has no value schema at all. -/
  | noLatestSchema (store : String)
  /-- The cache does not answer this kind of question. -/
  | unsupported (call : String)
  /-- A fetch failed for another reason than that the store is gone. -/
  | fetchFailed (store : String) (cause : FetchError)
  deriving DecidableEq, Repr

namespace CacheError

/-- The text of a refusal. -/
def message : CacheError → String
  | .notStarted => "metadata repository isn't started yet, call start() before use"
  | .cleared => "metadata repository has already been cleared and shut down"
  | .alreadyCleared =>
    "cannot start metadata repository: it has already been cleared and shut down"
  | .noSuchStore store _ => "store does not exist: " ++ store
  | .invalidSchema store detail => "invalid schema for store " ++ store ++ ": " ++ detail
  | .noLatestSchema store => "store " ++ store ++ " doesn't have a latest value schema"
  | .unsupported call => "unsupported operation: " ++ call
  | .fetchFailed store cause =>
    "failed to fetch metadata of store " ++ store ++ ": " ++ cause.message

/-- The failed fetch behind a refusal. -/
def cause? : CacheError → Option FetchError
  | .noSuchStore _ cause => cause
  | .fetchFailed _ cause => some cause
  | _ => none

/-- How a failed fetch of a store's metadata reaches the caller. -/
def ofFetch (store : String) (e : FetchError) : CacheError :=
  if e.saysGone then .noSuchStore store (some e) else .fetchFailed store e

/-- Whether the cache cannot be used at all now. -/
def isUnusable : CacheError → Bool
  | .notStarted | .cleared => true
  | _ => false

/-- Whether the call was refused because there is no such store. -/
def isNoSuchStore : CacheError → Bool
  | .noSuchStore _ _ => true
  | _ => false

/-- Whether the same call may succeed later. -/
def isPassing : CacheError → Bool
  | .fetchFailed _ _ => true
  | _ => false

end CacheError

end StoreCache
