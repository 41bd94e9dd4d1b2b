/-!
# Failed fetches

Why a question to the metadata service was not answered. Three of the causes say that **the store
does not exist**; of the others, two may pass by themselves, and a reply nobody can read will not.
-/

namespace StoreCache

/-- Why a fetch failed. -/
inductive FetchError
  /-- The service knows no such store. -/
  | notFound (what : String)
  /-- No cluster was found for the store. -/
  | undiscovered (what : String)
  /-- The service holds no such part of the store's metadata. -/
  | missingKey (store key : String)
  /-- The service did not answer in time. -/
  | timeout
  /-- The service could not be asked, or refused to answer. -/
  | unavailable (why : String)
  /-- The answer could not be read. -/
  | unreadable (why : String)
  deriving DecidableEq, Repr

namespace FetchError

/-- The text of a failure. -/
def message : FetchError → String
  | .notFound what => "store not found: " ++ what
  | .undiscovered what => "cluster discovery failed: " ++ what
  | .missingKey store key => "missing key " ++ key ++ " in metadata of store " ++ store
  | .timeout => "request timeout"
  | .unavailable why => "metadata service unavailable: " ++ why
  | .unreadable why => "deserialization error: " ++ why

/-- Whether the failure says that the store does not exist. -/
def saysGone : FetchError → Bool
  | .notFound _ | .undiscovered _ | .missingKey _ _ => true
  | _ => false

/-- Whether the same question may be answered later. -/
def isPassing : FetchError → Bool
  | .timeout | .unavailable _ => true
  | _ => false

end FetchError

end StoreCache
