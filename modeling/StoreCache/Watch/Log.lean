import StoreCache.Digits

/-!
# The log of the watcher

A filter chooses the lines of a log. It is a list of directives between commas, each a level, a
target, or a target with a level; **the directive with the longest target that begins the name of
the program decides**, and of two with the same target the later. A directive that cannot be read is
passed over, and where none decides nothing is logged.
-/

namespace StoreCache.Watch

/-- The levels, and how much of the log each lets through. -/
inductive Level
  | off
  | error
  | warn
  | info
  | debug
  | trace
  deriving DecidableEq, Repr

namespace Level

/-- The levels by increasing detail. -/
def all : List Level := [.off, .error, .warn, .info, .debug, .trace]

/-- How much a level lets through. -/
def detail (l : Level) : Nat := all.idxOf l

/-- The name of a level in a log. -/
def label : Level → String
  | .off => "OFF"
  | .error => "ERROR"
  | .warn => "WARN"
  | .info => "INFO"
  | .debug => "DEBUG"
  | .trace => "TRACE"

/-- The level with a name, in letters of either case, or with a number. -/
def ofText? (s : List Char) : Option Level :=
  match natOfDigits? 10 s with
  | some n => all[n]?
  | none => all.find? fun l ↦ l.label.toList = s.map Char.toUpper

end Level

/-- A line of the log. -/
structure LogLine where
  level : Level
  message : String
  deriving DecidableEq, Repr

/-- A line as it is written. -/
def LogLine.text (l : LogLine) : String := l.level.label ++ " " ++ l.message

/-! ### Filters -/

/-- What a part of a filter says. -/
structure Directive where
  /-- The beginning of the targets it is about; all if absent. -/
  target : Option (List Char)
  level : Level
  deriving DecidableEq, Repr

namespace Directive

/-- Whether a character may begin a directive. -/
def isFirst (c : Char) : Bool := c.isAlphanum || c = '-' || c = ':' || c = '_'

/-- Read a directive. -/
def ofText? (s : List Char) : Option Directive :=
  if !s.head?.any isFirst || s.contains '[' then none
  else
    match (s.dropWhile (· ≠ '=')).tail? with
    | some [] => some ⟨some (s.takeWhile (· ≠ '=')), .trace⟩
    | some level => (Level.ofText? level).map fun l ↦ ⟨some (s.takeWhile (· ≠ '=')), l⟩
    | none =>
      match Level.ofText? s with
      | some l => some ⟨none, l⟩
      | none => some ⟨some s, .trace⟩

/-- How much of a target a directive is about, if it is about it. -/
def reach? (target : List Char) (d : Directive) : Option Nat :=
  match d.target with
  | none => some 0
  | some t => if t.isPrefixOf target then some t.length else none

end Directive

/-- A filter of a log. -/
abbrev LogFilter := List Directive

namespace LogFilter

/-- Read a filter. -/
def ofText (s : String) : LogFilter :=
  (s.toList.splitOnP (· = ',')).filterMap Directive.ofText?

/-- The level that a filter sets for a target. -/
def levelFor (f : LogFilter) (target : List Char) : Level :=
  let best := f.foldl
    (fun (best : Nat × Level) d ↦
      match d.reach? target with
      | some n => if best.1 ≤ n then (n, d.level) else best
      | none => best)
    (0, .off)
  best.2

/-- The target of the watcher's lines. -/
def target : List Char := "metacache_watch".toList

/-- Whether a filter lets a line of the watcher through. -/
def passes (f : LogFilter) (l : LogLine) : Bool := l.level.detail ≤ (f.levelFor target).detail

end LogFilter

end StoreCache.Watch
