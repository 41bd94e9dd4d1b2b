import StoreCache.Settings
import StoreCache.Toml.Document
import StoreCache.Watch.Arguments

/-!
# The configuration of the watcher

The configuration is a TOML document with a section for the cache, one for the access to the service
and one for the log; whatever is absent is standard. **A document that cannot be read counts as an
empty one**, with a warning. Arguments come before what the document says.
-/

namespace StoreCache.Watch

open Json (Tree Fields)

/-- What the watcher is set up with. -/
structure Configuration where
  cache : CacheSettings
  service : ServiceSettings
  /-- The filter of the log. -/
  logLevel : String
  deriving DecidableEq

namespace Configuration

/-- The filter of the log when no other is given. -/
def standardLogLevel : String := "info"

/-- The configuration of a watcher that is given none. -/
def standard : Configuration := ⟨.standard, .standard, standardLogLevel⟩

/-- Read the section for the log. -/
def logLevel? (t : Tree) : Option String := do
  let fields ← Fields.ofTree? ["level"] t
  fields.optional? "level" standardLogLevel Tree.string?

/-- Read a configuration. -/
def ofTree? (t : Tree) : Option Configuration := do
  let fields ← Fields.ofTree? ["repository", "fetcher", "logging"] t
  let cache ← fields.optional? "repository" .standard CacheSettings.ofTree?
  let service ← fields.optional? "fetcher" .standard ServiceSettings.ofTree?
  let logLevel ← fields.optional? "logging" standardLogLevel logLevel?
  return { cache, service, logLevel }

/-- Read the text of a configuration. -/
def parse? (text : String) : Option Configuration := (Toml.parse? text).bind ofTree?

/-- The configuration in a file, which may be missing, and whether a warning is due. -/
def ofFile : Option String → Configuration × Bool
  | none => (standard, false)
  | some text =>
    match parse? text with
    | some c => (c, false)
    | none => (standard, true)

/-- The configuration with what the arguments say. Asking for the standard log is like not asking.
-/
def withArguments (c : Configuration) (a : Arguments) : Configuration where
  cache := {
    c.cache with
    viaRouter := c.cache.viaRouter || a.viaRouter
    refreshInterval := a.refreshInterval.getD c.cache.refreshInterval }
  service := { c.service with endpoint := a.endpoint.getD c.service.endpoint }
  logLevel :=
    match a.logLevel with
    | some l => if l = standardLogLevel then c.logLevel else l
    | none => c.logLevel

end Configuration

end StoreCache.Watch
