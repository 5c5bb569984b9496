import CurlyScript.Command.Run

/-!
# The command line

The command as a program: what `Command.run` does for a tree of files, done for the files of the
machine.  Each source is listed and reported as soon as it has been worked on.

## References

`SPEC_FULL.md`, sections 6, E3 and E4.
-/

namespace CurlyScript
namespace Shell

/-- What a path leads to, with all that is below it. -/
partial def lookAt (path : String) : IO Found := do
  if path.isEmpty then return .neither
  let place := (IO.FS.DirEntry.mk "." path).path
  let kind ← try some <$> IO.FS.Metadata.type <$> place.metadata catch _ => pure none
  match kind with
  | some .file => return .file
  | some .dir =>
    let mut entries := #[]
    for entry in ← place.readDir do
      entries := entries.push (entry.fileName, ← lookAt (Path.join path entry.fileName))
    return .directory entries.toList
  | _ => return .neither

/-- The bytes of a file. -/
def contentsOf (path : String) : IO (Except ReadError ByteArray) := do
  try
    return .ok (← IO.FS.readBinFile path)
  catch
    | .noFileOrDirectory .. => return .error .notFound
    | cause => return .error (.other cause.toString)

/-- The bytes up to and with the next line feed, after those that have been read. -/
partial def readLine (input : IO.FS.Stream) (line : Array UInt8) : IO (Array UInt8) := do
  let byte ← input.read 1
  if byte.isEmpty then return line
  let line := line ++ byte.data
  if byte.data.contains Input.lineFeed then return line else readLine input line

/-- Shows what a source has added, and forgets it. -/
def showNews (options : Options) (colored : Bool) (run : Run) : IO Run := do
  (← IO.getStderr).write ⟨run.reports.toArray⟩
  (← IO.getStdout).putStr run.output
  return { run with listed := #[], reporter.logger := options.logger colored }

/-- Works through standard input from a line on. -/
partial def runInput (options : Options) (colored : Bool) (index : Nat) (run : Run) : IO Run := do
  let line ← readLine (← IO.getStdin) #[]
  if line.isEmpty then return run
  let run ← showNews options colored (run.line index line.toList)
  runInput options colored (index + 1) run

/-- Works through what the options ask for. -/
def perform (options : Options) (colored : Bool) : IO Outcome := do
  let start := options.start colored
  if options.paths.isEmpty then return .finished (← runInput options colored 1 start)
  let listed ← options.paths.mapM fun path => do return (path, ← lookAt path)
  match Discovery.collect options.extension listed with
  | .error path => return .missing path
  | .ok files =>
    let mut run := start
    for path in files do
      run ← showNews options colored (run.file path (← contentsOf path))
    return .finished run

/-- Does what the arguments ask for, and tells the exit code. -/
def start (arguments : List String) : IO UInt32 := do
  let outcome ← match Options.ofArguments arguments with
    | .error cause => pure (.usage cause)
    | .ok options =>
      let colored := !options.noColor && (← (← IO.getStderr).isTty)
      perform options colored
  match outcome with
  | .usage cause =>
    if cause.isMistake then IO.eprintln s!"error: {cause.message}" else IO.println cause.message
  | .missing path => IO.eprintln s!"Error: {path.message}"
  | .finished run => IO.eprint run.summary
  return outcome.exitCode.toUInt32

end Shell
end CurlyScript

/-- The program. -/
def main (arguments : List String) : IO UInt32 := CurlyScript.Shell.start arguments
