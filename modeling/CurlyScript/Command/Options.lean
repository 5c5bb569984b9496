import CurlyScript.Report.Severity

/-!
# The options of the command

The arguments are read from left to right.  An argument of a flag takes effect at once, while the
value of an option and the paths are held back until the next option, or until the end: a fault
in them is only noticed then.  What no option is called is refused at once.

## Main definitions

* `Argument` — how an argument is written: long, short, plain, or the end of the options.
* `Flag` — what the command can be told.
* `UsageError` — why arguments are refused.
* `Options.ofArguments` — the options that arguments stand for.
* `Options.level`, `Options.leastSeverity` — what is to be seen.

## References

`SPEC_FULL.md`, section E4.
-/

namespace CurlyScript

/-! ### Options -/

/-- How much of the course of the command is to be seen. -/
inductive LogLevel
  /-- Nothing. -/
  | off
  /-- Mistakes. -/
  | error
  /-- Also what users may want to know. -/
  | info
  /-- Also what developers may want to know. -/
  | debug
  /-- Every single step. -/
  | trace
  deriving DecidableEq

/-- The name of a level. -/
def LogLevel.name : LogLevel → String
  | .off => "off"
  | .error => "error"
  | .info => "info"
  | .debug => "debug"
  | .trace => "trace"

/-- What the command is told. -/
structure Options where
  /-- How often more output was asked for. -/
  verbose : Nat := 0
  /-- How often less output was asked for. -/
  quiet : Nat := 0
  /-- The files and directories to read.  Standard input is read when there are none. -/
  paths : List String := []
  /-- Whether to list tokens instead of statements. -/
  tokens : Bool := false
  /-- Whether colors are ruled out. -/
  noColor : Bool := false
  /-- The extension of source files, if one was given. -/
  extension? : Option String := none
  deriving DecidableEq

namespace Options

/-- The extension of the files that are looked for in directories. -/
def extension (o : Options) : String := o.extension?.getD "ktpp"

/-- How much of the course of the command is to be seen. -/
def level (o : Options) : LogLevel :=
  if o.verbose + 2 ≤ o.quiet then .off
  else if o.verbose + 1 = o.quiet then .error
  else if o.verbose = o.quiet then .info
  else if o.verbose = o.quiet + 1 then .debug
  else .trace

/-- The least severity of the reports that are to be seen. -/
def leastSeverity (o : Options) : Severity :=
  if 0 < o.quiet then .error else if 0 < o.verbose then .debug else .info

/-- Whether reports are also to be seen among the steps of the command. -/
def traceReports (o : Options) : Bool := 1 < o.verbose

end Options

/-! ### Arguments -/

/-- How an argument is written. -/
inductive Argument
  /-- Two dashes alone: no options follow. -/
  | endOfOptions
  /-- Two dashes and a name, maybe with a value after an equals sign. -/
  | long (name : String) (value : Option String)
  /-- One dash and some letters. -/
  | short (letters : List Char)
  /-- Anything else, one dash alone among them. -/
  | plain (text : String)
  deriving DecidableEq

/-- The parts of a long argument on both sides of its first equals sign. -/
def Argument.ofLong (text : List Char) : Argument :=
  let name := text.takeWhile (· != '=')
  .long (String.ofList name) <|
    match text.drop name.length with
    | [] => none
    | _ :: value => some (String.ofList value)

/-- How an argument is written. -/
def Argument.ofText (text : String) : Argument :=
  match text.toList with
  | ['-', '-'] => .endOfOptions
  | '-' :: '-' :: rest => .ofLong rest
  | ['-'] => .plain text
  | '-' :: letters => .short letters
  | _ => .plain text

/-- What the command can be told besides paths. -/
inductive Flag
  /-- More output. -/
  | verbose
  /-- Less output. -/
  | quiet
  /-- Tokens instead of statements. -/
  | tokens
  /-- No colors. -/
  | noColor
  /-- Which files are looked for.  This is the only one with a value. -/
  | extension
  /-- What the command can be told. -/
  | help
  /-- Which version of the command this is. -/
  | version
  deriving DecidableEq

namespace Flag

/-- The flag with a given name. -/
def ofName? : String → Option Flag
  | "tokens" => some .tokens
  | "no-color" => some .noColor
  | "extension" => some .extension
  | "help" => some .help
  | "version" => some .version
  | _ => none

/-- The flag with a given letter. -/
def ofLetter? : Char → Option Flag
  | 'v' => some .verbose
  | 'q' => some .quiet
  | 'h' => some .help
  | 'V' => some .version
  | _ => none

end Flag

/-! ### Reading arguments -/

/-- Why arguments are refused, or no work is asked for. -/
inductive UsageError
  /-- Nothing is called so. -/
  | unknown (name : String)
  /-- It may be given only once. -/
  | repeated (flag : Flag)
  /-- More and less output at the same time. -/
  | verboseAndQuiet
  /-- An option without its value. -/
  | missingValue (flag : Flag)
  /-- A path without a character. -/
  | emptyPath
  /-- It may be given only twice. -/
  | tooOften (flag : Flag)
  /-- A value for a flag that has none. -/
  | unwantedValue (flag : Flag)
  /-- The help text is asked for. -/
  | helpWanted
  /-- The version is asked for. -/
  | versionWanted
  deriving DecidableEq

/-- How a flag is written. -/
def Flag.text : Flag → String
  | .verbose => "-v"
  | .quiet => "-q"
  | .tokens => "--tokens"
  | .noColor => "--no-color"
  | .extension => "--extension"
  | .help => "--help"
  | .version => "--version"

/-- What is said about arguments that are refused. -/
def UsageError.message : UsageError → String
  | .unknown name => s!"unexpected argument '{name}'"
  | .repeated flag => s!"'{flag.text}' cannot be used more than once"
  | .verboseAndQuiet => "'-v' cannot be used with '-q'"
  | .missingValue flag => s!"a value is required for '{flag.text}'"
  | .emptyPath => "a path cannot be empty"
  | .tooOften flag => s!"'{flag.text}' cannot be used more than twice"
  | .unwantedValue flag => s!"'{flag.text}' takes no value"
  | .helpWanted =>
    "usage: ktppc [-v | -q] [--tokens] [--no-color] [--extension <extension>] [path]..."
  | .versionWanted => "ktppc 0.0.0"

/-- Whether arguments are refused because of a mistake in them. -/
def UsageError.isMistake : UsageError → Bool
  | .helpWanted => false
  | .versionWanted => false
  | _ => true

/-- What has been read and has not taken effect. -/
inductive HeldBack
  /-- Nothing. -/
  | nothing
  /-- The option for the extension, with its value if that has been read. -/
  | extension (value : Option String)
  /-- Paths, the last one first. -/
  | paths (latest : List String)

/-- The state of the reading of arguments. -/
structure ArgumentReader where
  /-- The options so far. -/
  options : Options := {}
  /-- What has been read and has not taken effect. -/
  held : HeldBack := .nothing
  /-- Whether no options follow. -/
  onlyPaths : Bool := false

namespace ArgumentReader

/-- Puts into effect what is held back. -/
def settle (s : ArgumentReader) : Except UsageError ArgumentReader :=
  match s.held with
  | .nothing => .ok s
  | .extension none => .error (.missingValue .extension)
  | .extension (some value) =>
    if s.options.extension?.isSome then .error (.repeated .extension)
    else .ok { s with options.extension? := some value, held := .nothing }
  | .paths latest =>
    if latest.contains "" then .error .emptyPath
    else .ok { s with options.paths := s.options.paths ++ latest.reverse, held := .nothing }

/-- Puts a flag into effect. -/
def raise (s : ArgumentReader) : Flag → Except UsageError ArgumentReader
  | .verbose =>
    if s.options.verbose < 2 then .ok { s with options.verbose := s.options.verbose + 1 }
    else .error (.tooOften .verbose)
  | .quiet =>
    if s.options.quiet < 2 then .ok { s with options.quiet := s.options.quiet + 1 }
    else .error (.tooOften .quiet)
  | .tokens =>
    if s.options.tokens then .error (.repeated .tokens)
    else .ok { s with options.tokens := true }
  | .noColor =>
    if s.options.noColor then .error (.repeated .noColor)
    else .ok { s with options.noColor := true }
  | .extension => .ok { s with held := .extension none }
  | .help => .error .helpWanted
  | .version => .error .versionWanted

/-- Reads a flag, after what is held back. -/
def flag (s : ArgumentReader) (f : Flag) : Except UsageError ArgumentReader := do
  (← s.settle).raise f

/-- Reads a flag that has a value attached.  The value takes effect at once. -/
def flagWithValue (s : ArgumentReader) (f : Flag) (value : String) :
    Except UsageError ArgumentReader := do
  match f with
  | .extension =>
    let s ← s.settle
    settle { s with held := .extension (some value) }
  | f => .error (.unwantedValue f)

/-- Reads the letters of a short argument one after the other. -/
def letters (s : ArgumentReader) : List Char → Except UsageError ArgumentReader
  | [] => .ok s
  | c :: cs =>
    match Flag.ofLetter? c with
    | none => .error (.unknown (String.ofList ['-', c]))
    | some f => do (← s.flag f).letters cs

/-- Reads a path. -/
def path (s : ArgumentReader) (text : String) : Except UsageError ArgumentReader :=
  match s.held with
  | .paths latest => .ok { s with held := .paths (text :: latest) }
  | _ => do
    let s ← s.settle
    return { s with held := .paths [text] }

/-- Reads an argument. -/
def read (s : ArgumentReader) (text : String) : Except UsageError ArgumentReader :=
  if s.onlyPaths then s.path text
  else
    match Argument.ofText text with
    | .endOfOptions => .ok { s with onlyPaths := true }
    | .long name value =>
      match Flag.ofName? name, value with
      | none, _ => .error (.unknown ("--" ++ name))
      | some f, none => s.flag f
      | some f, some value => s.flagWithValue f value
    | .short cs => s.letters cs
    | .plain text =>
      match s.held with
      | .extension none => .ok { s with held := .extension (some text) }
      | _ => s.path text

end ArgumentReader

/-- The options that arguments stand for. -/
def Options.ofArguments (arguments : List String) : Except UsageError Options := do
  let read ← arguments.foldlM ArgumentReader.read {}
  let options := (← read.settle).options
  if 0 < options.verbose && 0 < options.quiet then .error .verboseAndQuiet else .ok options

end CurlyScript
