import StoreCache.Digits

/-!
# Arguments of the watcher

The arguments are words. A word that begins with two hyphens names a switch, one that begins with
one hyphen a letter of a switch, and any other is a store to watch, or the value of the switch
before it. Behind a word of two hyphens alone all words are stores.

A value is written in the next word, or behind an equals sign; behind a letter the sign may be left
out. **A switch stands once**, has a value exactly if it takes one, and the first word that breaks a
rule decides, just as the first request for help or for the version does.
-/

namespace StoreCache.Watch

/-- A switch of the watcher. -/
inductive Switch
  | config
  | endpoint
  | viaRouter
  | refreshInterval
  | reportInterval
  | once
  | logLevel
  | help
  | version
  deriving DecidableEq, Repr

namespace Switch

/-- All switches. -/
def all : List Switch :=
  [.config, .endpoint, .viaRouter, .refreshInterval, .reportInterval, .once, .logLevel, .help,
   .version]

/-- The name of a switch. -/
def name : Switch → String
  | .config => "config"
  | .endpoint => "endpoint"
  | .viaRouter => "request-based"
  | .refreshInterval => "refresh-interval-secs"
  | .reportInterval => "report-interval-secs"
  | .once => "once"
  | .logLevel => "log-level"
  | .help => "help"
  | .version => "version"

/-- The letter of a switch, if it has one. -/
def letter? : Switch → Option Char
  | .config => some 'c'
  | .endpoint => some 'e'
  | .help => some 'h'
  | .version => some 'V'
  | _ => none

/-- Whether a switch takes a value. -/
def takesValue : Switch → Bool
  | .viaRouter | .once | .help | .version => false
  | _ => true

/-- The switch with a name. -/
def ofName? (name : String) : Option Switch := all.find? (·.name = name)

/-- The switch with a letter. -/
def ofLetter? (c : Char) : Option Switch := all.find? (·.letter? = some c)

end Switch

/-- What the watcher is asked to do. -/
structure Arguments where
  config : Option String
  /-- The stores to watch, in order. -/
  stores : List String
  endpoint : Option String
  viaRouter : Bool
  refreshInterval : Option UInt64
  reportInterval : Option UInt64
  /-- Whether to report once and end. -/
  once : Bool
  logLevel : Option String
  deriving DecidableEq

/-- Why words are no arguments. -/
inductive Misuse
  | unknown (word : String)
  | withoutValue (s : Switch)
  | withValue (s : Switch)
  | repeated (s : Switch)
  | notNumber (s : Switch) (value : String)
  deriving DecidableEq, Repr

/-- The text of a misuse. -/
def Misuse.message : Misuse → String
  | .unknown word => "unexpected argument '" ++ word ++ "' found"
  | .withoutValue s => "a value is required for '--" ++ s.name ++ "' but none was supplied"
  | .withValue s => "unexpected value for '--" ++ s.name ++ "' found; no more were expected"
  | .repeated s => "the argument '--" ++ s.name ++ "' cannot be used multiple times"
  | .notNumber s value => "invalid value '" ++ value ++ "' for '--" ++ s.name ++ "'"

/-- Why the watcher does not start. -/
inductive Refusal
  | help
  | version
  | misuse (m : Misuse)
  deriving DecidableEq, Repr

namespace Arguments

/-- No arguments. -/
def empty : Arguments where
  config := none
  stores := []
  endpoint := none
  viaRouter := false
  refreshInterval := none
  reportInterval := none
  once := false
  logLevel := none

/-- The file read when no other is named. -/
def standardConfig : String := "/etc/metacache/watch.toml"

/-- Seconds between reports when nothing else is asked for. -/
def standardReportInterval : UInt64 := 30

/-- The file the configuration is read from. -/
def configPath (a : Arguments) : String := a.config.getD standardConfig

/-- Seconds between reports, never zero. -/
def reportPeriod (a : Arguments) : Nat :=
  max 1 (a.reportInterval.getD standardReportInterval).toNat

/-- Read a number of seconds; a plus sign may stand in front. -/
def seconds? (value : String) : Option UInt64 :=
  let digits := match value.toList with
    | '+' :: rest => rest
    | s => s
  (natOfDigits? 10 digits).bind fun n ↦ if n < UInt64.size then some (UInt64.ofNat n) else none

/-- Give a switch the value it takes. -/
def setValue (a : Arguments) (s : Switch) (value : String) : Except Misuse Arguments :=
  let number (old : Option UInt64) (put : UInt64 → Arguments) : Except Misuse Arguments :=
    if old.isSome then .error (.repeated s)
    else match seconds? value with
      | some n => .ok (put n)
      | none => .error (.notNumber s value)
  let text (old : Option String) (put : Arguments) : Except Misuse Arguments :=
    if old.isSome then .error (.repeated s) else .ok put
  match s with
  | .config => text a.config { a with config := some value }
  | .endpoint => text a.endpoint { a with endpoint := some value }
  | .logLevel => text a.logLevel { a with logLevel := some value }
  | .refreshInterval => number a.refreshInterval fun n ↦ { a with refreshInterval := some n }
  | .reportInterval => number a.reportInterval fun n ↦ { a with reportInterval := some n }
  | .viaRouter | .once | .help | .version => .error (.withValue s)

/-- Turn a switch on that takes no value. -/
def turnOn (a : Arguments) (s : Switch) : Except Refusal Arguments :=
  match s with
  | .help => .error .help
  | .version => .error .version
  | .viaRouter =>
    if a.viaRouter then .error (.misuse (.repeated s)) else .ok { a with viaRouter := true }
  | .once => if a.once then .error (.misuse (.repeated s)) else .ok { a with once := true }
  | s => .error (.misuse (.withoutValue s))

/-! ### Words -/

/-- What a word is by its beginning. -/
inductive Word
  /-- Two hyphens alone. -/
  | rest
  /-- The name of a switch and the value behind an equals sign. -/
  | named (name : String) (value : Option String)
  /-- The letter of a switch and what stands behind it. -/
  | letter (c : Char) (behind : List Char)
  | plain (text : String)

/-- What a word is. A hyphen alone is no switch. -/
def Word.ofText (text : String) : Word :=
  match text.toList with
  | ['-', '-'] => .rest
  | '-' :: '-' :: s =>
    .named (String.ofList (s.takeWhile (· ≠ '=')))
      ((s.dropWhile (· ≠ '=')).tail?.map String.ofList)
  | '-' :: c :: behind => .letter c behind
  | _ => .plain text

/-- The value behind a letter, without an equals sign in front. -/
def valueBehind? : List Char → Option String
  | [] => none
  | '=' :: rest => some (String.ofList rest)
  | rest => some (String.ofList rest)

/-- Use a switch; returns the switch again if its value has still to come. -/
def use (a : Arguments) (s : Switch) (value : Option String) :
    Except Refusal (Arguments × Option Switch) :=
  match value with
  | some value =>
    match a.setValue s value with
    | .ok a => .ok (a, none)
    | .error m => .error (.misuse m)
  | none => if s.takesValue then .ok (a, some s) else (a.turnOn s).map (·, none)

/-- Use the switch that a word names or abbreviates. -/
def useWord (a : Arguments) (text : String) (s : Option Switch) (value : Option String) :
    Except Refusal (Arguments × Option Switch) :=
  match s with
  | some s => a.use s value
  | none => .error (.misuse (.unknown text))

/-- Read on, where `waiting` is a switch whose value has to come. -/
def readFrom (a : Arguments) (waiting : Option Switch) : List String → Except Refusal Arguments
  | [] =>
    match waiting with
    | some s => .error (.misuse (.withoutValue s))
    | none => .ok a
  | text :: words =>
    match Word.ofText text, waiting with
    | .plain text, some s =>
      match a.setValue s text with
      | .ok a => readFrom a none words
      | .error m => .error (.misuse m)
    | .plain text, none => readFrom { a with stores := a.stores ++ [text] } none words
    | _, some s => .error (.misuse (.withoutValue s))
    | .rest, none => .ok { a with stores := a.stores ++ words }
    | .named name value, none =>
      match a.useWord text (Switch.ofName? name) value with
      | .ok (a, waiting) => readFrom a waiting words
      | .error r => .error r
    | .letter c behind, none =>
      let s := Switch.ofLetter? c
      let value := if s.any Switch.takesValue then valueBehind? behind else none
      match a.useWord text s value with
      | .ok (a, waiting) => readFrom a waiting words
      | .error r => .error r

/-- Read the arguments of the watcher. -/
def ofWords? (words : List String) : Except Refusal Arguments := readFrom empty none words

end Arguments

end StoreCache.Watch
