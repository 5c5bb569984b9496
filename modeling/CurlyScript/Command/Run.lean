import CurlyScript.Command.Input
import CurlyScript.Command.Options
import CurlyScript.Files.Tree
import CurlyScript.Report.Reporter

/-!
# Running the command

The command works through its sources one after the other.  A source without an error is listed,
and one with an error is counted.  Files that cannot be read are reported and counted, and the
others are still worked on.

## Main definitions

* `Run` — the command between two sources.
* `Run.source` — the command after a source.
* `Run.files`, `Run.input` — the command after all files, or all of standard input.
* `Command.run` — all that the command does, from its arguments, standard input and a tree of
  files.
* `Outcome.exitCode` — how it ends.

## References

`SPEC_FULL.md`, sections 6 and E4, and section E7 for what cannot be read.
-/

namespace CurlyScript

/-- The command between two sources. -/
structure Run where
  /-- Whether tokens are listed instead of statements. -/
  tokens : Bool
  /-- What reports are made with. -/
  reporter : Reporter
  /-- The lines that have been listed. -/
  listed : Array String := #[]
  /-- How many sources had errors. -/
  failed : Nat := 0

namespace Run

/-! ### Sources -/

/-- The command after a source that had an error. -/
def fail (r : Run) (reporter : Reporter) : Run := { r with reporter, failed := r.failed + 1 }

/-- The command after a source that is listed. -/
def list (r : Run) (reporter : Reporter) (lines : List String) : Run :=
  { r with reporter, listed := r.listed ++ lines }

/-- The command after a source. -/
def source (r : Run) (file text : String) : Run :=
  if r.tokens then
    let (stream, reporter) := r.reporter.lex file text
    if stream.hadError then r.fail reporter
    else r.list reporter (stream.withoutEnd.map Token.listing)
  else
    let (program, reporter) := r.reporter.parse file text
    if program.hadError then r.fail reporter
    else r.list reporter (program.statements.map Stmt.listing)

/-- What is reported about a file that cannot be read. -/
def unreadable (path : String) (cause : ReadError) : Record :=
  { severity := .error, source := some "driver"
    message := s!"could not read {path}: {cause.message}" }

/-- The command after a file. -/
def file (r : Run) (path : String) : Except ReadError ByteArray → Run
  | .ok bytes => r.source path (Text.decodeString bytes)
  | .error cause => r.fail (r.reporter.log (unreadable path cause))

/-- The command after some files. -/
def files (r : Run) (files : List (String × Except ReadError ByteArray)) : Run :=
  files.foldl (fun r entry => r.file entry.1 entry.2) r

/-- The command after a line of standard input. -/
def line (r : Run) (index : Nat) (bytes : List UInt8) : Run :=
  r.source (Input.name index) (Input.text bytes)

/-- The command after all of standard input. -/
def input (r : Run) (bytes : List UInt8) : Run :=
  ((Input.rawLines bytes).zipIdx 1).foldl (fun r entry => r.line entry.2 entry.1) r

/-! ### What is seen of it -/

/-- What the command has listed, as text. -/
def output (r : Run) : String := String.join (r.listed.toList.map (· ++ "\n"))

/-- The bytes that reports have been written with. -/
def reports (r : Run) : List UInt8 :=
  r.reporter.logger.sinks.flatMap fun
    | .writing writer => writer.stream.bytes.toList
    | _ => []

/-- What is said at the end, if anything. -/
def summary (r : Run) : String := if r.failed = 0 then "" else s!"{r.failed} source(s) had errors\n"

end Run

/-! ### The command -/

/-- Where reports go: they are written, and shown among the steps of the command if that is
asked for. -/
def Options.logger (o : Options) (colored : Bool) : Logger :=
  let written := (Logger.combined []).push (.writing { least := o.leastSeverity, colored })
  if o.traceReports then written.push .tracing else written

/-- The command before its first source. -/
def Options.start (o : Options) (colored : Bool) : Run :=
  { tokens := o.tokens, reporter := { logger := o.logger colored } }

/-- How the command ends. -/
inductive Outcome
  /-- The arguments ask for no work. -/
  | usage (cause : UsageError)
  /-- A listed path leads nowhere, and nothing is worked on. -/
  | missing (path : Discovery.MissingPath)
  /-- All sources have been worked on. -/
  | finished (run : Run)

/-- The exit code of the command. -/
def Outcome.exitCode : Outcome → Nat
  | .usage cause => if cause.isMistake then 2 else 0
  | .missing _ => 1
  | .finished run => if run.failed = 0 then 0 else 1

/-- What the command has listed, as text. -/
def Outcome.output : Outcome → String
  | .finished run => run.output
  | _ => ""

namespace Command

/-- All that the command does.  Listed paths are looked for in a tree of files, from the directory
at hand; without them standard input is read. -/
def run (root : Node) (input : List UInt8) (arguments : List String) (here : List String := []) :
    Outcome :=
  match Options.ofArguments arguments with
  | .error cause => .usage cause
  | .ok options =>
    let start := options.start false
    if options.paths = [] then .finished (start.input input)
    else
      let listed := options.paths.map fun path => (path, root.look here path)
      match Discovery.collect options.extension listed with
      | .error path => .missing path
      | .ok files => .finished (start.files (files.map fun path => (path, root.contents here path)))

end Command
end CurlyScript
