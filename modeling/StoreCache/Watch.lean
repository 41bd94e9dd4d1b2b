import StoreCache.Http.Client
import StoreCache.Listener.Rule
import StoreCache.Session
import StoreCache.Watch.Configuration
import StoreCache.Watch.Log

/-!
# The watcher

The watcher subscribes to the stores it is given, logs every record that changes or leaves, and
reports how many stores are cached and how fresh they are. It is a cache with **one listener, which
only logs**, so the log is read off the journal of the cache.

`Watch.runOnce` is the whole of a run that reports once. A store that cannot be subscribed to is
logged and left out.
-/

namespace StoreCache

/-- A watcher at work. -/
structure Watch where
  session : Session
  /-- The log so far. -/
  log : List Watch.LogLine

namespace Watch

/-- The listener that logs. -/
def logger : ListenerId := "log"

/-- What the listener logs, by an entry of the journal. -/
def lineOf? : Entry → Option LogLine
  | .called _ .changed s _ =>
    some ⟨.info, "Store " ++ s.name ++ " updated: version=" ++ toString s.currentVersion.toNat ++
      ", read_quota=" ++ toString s.readQuota.toNat ++ "cu, batch_get_limit=" ++
      toString s.batchGetLimit.toInt⟩
  | .called _ .deleted s _ => some ⟨.info, "Store " ++ s.name ++ " dropped from cache"⟩
  | _ => none

/-- Write a line. -/
def say (w : Watch) (l : LogLine) : Watch := { w with log := w.log ++ [l] }

/-- Let the session go on, and log what the listener was told meanwhile. -/
def advanceTo (w : Watch) (s : Session) : Watch :=
  let before := w.session.world.cache.journal.length
  let journal := s.world.cache.journal
  let news := (journal.take (journal.length - before)).reverse
  { w with session := s, log := w.log ++ news.filterMap lineOf? }

/-- Make a call; returns what became of it. -/
def perform (w : Watch) (op : Operation) : Option Outcome × Watch :=
  let (id, s) := w.session.perform op
  (s.outcome? id, w.advanceTo s)

/-! ### A run -/

/-- The line that every run begins with. -/
def greeting : LogLine := ⟨.info, "Starting metacache watch"⟩

/-- Start a watcher. -/
def start (settings : CacheSettings) (source : Source) (clock : Nat) : Watch :=
  let session := Session.new (.ofRules []) settings 0 source true clock
  let w : Watch := ⟨session, [greeting]⟩
  ((w.perform (.register logger)).2.perform .start).2

/-- Subscribe to a store. -/
def subscribe (w : Watch) (store : String) : Watch :=
  match w.perform (.subscribe store) with
  | (some (.error e), w) =>
    w.say ⟨.warn, "Failed to subscribe to store " ++ store ++ ": " ++ e.message⟩
  | (_, w) => w

/-- Log what is cached; returns the freshness in the text format for metrics. -/
def report (w : Watch) : String × Watch :=
  let c := w.session.world.cache
  let stores := match c.all with
    | .ok l => l
    | .error _ => []
  let quota := match c.readQuota with
    | .ok q => q
    | .error _ => 0
  let summary : LogLine :=
    ⟨.info, toString stores.length ++ " stores cached, total read quota " ++ toString quota ++ "cu"⟩
  let placed := stores.map fun s ↦
    let cluster := match c.cluster? s.name with
      | .ok (some cluster) => cluster
      | _ => "unknown"
    LogLine.mk .info ("  " ++ s.name ++ " -> cluster " ++ cluster)
  (c.freshness.prometheus c.clock, { w with log := w.log ++ summary :: placed })

/-- End the watch: every store leaves the cache. -/
def close (w : Watch) : Watch := (w.perform (.clear [])).2

/-- What a run leaves behind. -/
structure Transcript where
  /-- The lines that pass the filter of the log. -/
  log : List LogLine
  /-- What is printed besides the log. -/
  output : String
  /-- Why the run failed, if it did. -/
  failure : Option String
  deriving DecidableEq, Repr

/-- A run that reports once. -/
def runOnce (c : Configuration) (stores : List String) (service : Http.Service) (clock : Nat) :
    Transcript :=
  let filter := LogFilter.ofText c.logLevel
  match Http.Client.ofSettings? c.cache c.service with
  | .error e => ⟨[greeting].filter filter.passes, "", some e.message⟩
  | .ok client =>
    let w := stores.foldl subscribe (start c.cache (client.source service) clock)
    let (output, w) := w.report
    ⟨w.close.log.filter filter.passes, output, none⟩

/-! ### Texts -/

/-- The version of the watcher. -/
def versionText : String := "metacache-watch 0.1.0\n"

/-- How the watcher is used. -/
def helpText : String :=
  String.join (List.map (· ++ "\n")
    ["Watch store metadata through the metacache repository",
     "",
     "Usage: metacache-watch [OPTIONS] [STORES]...",
     "",
     "Arguments:",
     "  [STORES]...  Stores to subscribe to",
     "",
     "Options:",
     "  -c, --config <CONFIG>",
     "          Configuration file path [default: /etc/metacache/watch.toml]",
     "  -e, --endpoint <ENDPOINT>",
     "          Metadata service (or router) endpoint",
     "      --request-based",
     "          Use the request-based fetch strategy",
     "      --refresh-interval-secs <REFRESH_INTERVAL_SECS>",
     "          Interval between full cache refreshes",
     "      --report-interval-secs <REPORT_INTERVAL_SECS>",
     "          Interval between stats reports [default: 30]",
     "      --once",
     "          Subscribe, print one report, and exit",
     "      --log-level <LOG_LEVEL>",
     "          Log level [default: info]",
     "  -h, --help",
     "          Print help",
     "  -V, --version",
     "          Print version"])

end Watch

end StoreCache
