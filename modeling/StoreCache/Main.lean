import StoreCache.Watch

/-!
# The watcher as a program

Reads the arguments and the file they name, runs the watcher and prints what it says. What there is
to decide is decided in `StoreCache.Watch`; here are only files, streams and the passing of time.
-/

namespace StoreCache.Watch

/-- The program has no network of its own: no request reaches a service. -/
def offline : Http.Service := fun _ ↦ .failed

/-- Read a file; one that does not exist has no text. -/
def readText? (path : String) : IO (Option String) := do
  try
    return some (← IO.FS.readFile path)
  catch
    | .noFileOrDirectory .. => return none
    | e => throw e

/-- Print the lines of a log that pass a filter. -/
def printLog (filter : LogFilter) (lines : List LogLine) : IO Unit :=
  (lines.filter filter.passes).forM fun l ↦ IO.println l.text

/-- Report again and again. -/
partial def watchOn (filter : LogFilter) (period : Nat) (w : Watch) : IO Unit := do
  let (output, w) := w.report
  printLog filter w.log
  IO.print output
  (← IO.getStdout).flush
  IO.sleep (period * 1000).toUInt32
  watchOn filter period ({ w with log := [] }.advanceTo (w.session.advance (period * 1000)))

/-- Watch what the arguments say. -/
def runWith (a : Arguments) : IO UInt32 := do
  let (c, warned) := Configuration.ofFile (← readText? a.configPath)
  if warned then IO.eprintln "Warning: Failed to parse config file"
  let c := c.withArguments a
  let filter := LogFilter.ofText c.logLevel
  let clock ← IO.monoMsNow
  match a.once, Http.Client.ofSettings? c.cache c.service with
  | false, .ok client =>
    watchOn filter a.reportPeriod
      (a.stores.foldl subscribe (start c.cache (client.source offline) clock))
    return 0
  | _, _ =>
    let t := runOnce c a.stores offline clock
    printLog filter t.log
    IO.print t.output
    match t.failure with
    | none => return 0
    | some e =>
      IO.eprintln ("Error: " ++ e)
      return 1

end StoreCache.Watch

open StoreCache Watch in
/-- The watcher. -/
def main (args : List String) : IO UInt32 := do
  match Arguments.ofWords? args with
  | .error .help =>
    IO.print helpText
    return 0
  | .error .version =>
    IO.print versionText
    return 0
  | .error (.misuse m) =>
    IO.eprintln ("error: " ++ m.message)
    return 2
  | .ok a => runWith a
