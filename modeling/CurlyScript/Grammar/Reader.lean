import CurlyScript.Grammar.Cursor
import CurlyScript.Grammar.Fault
import CurlyScript.Report.Remark

/-!
# Reading tokens

The rules of the grammar are readers: they move a cursor over tokens and return a part of the
syntax tree, or fail and leave the cursor where they failed.  This module has the state they
share and the steps they are made of.

## Main definitions

* `ReaderState` — the cursor, the error flag, and what has happened so far.
* `Reader` — a computation on that state which may fail.
* `Reader.accept?`, `Reader.expect` — the next token if it is of a kind.
* `Reader.closeAngle?` — a closing angle bracket, which may be half of a shift.
* `Reader.commaSeparated` — items with commas between them.
* `Reader.recover` — a rule after whose failure reading goes on at the next declaration.
* `ReaderEvent.remark` — what a reader has to say, in words.

## References

`SPEC_FULL.md`, sections 4.3 and 4.3.2.
-/

namespace CurlyScript

/-! ### What a reader says -/

/-- What happens while tokens are read. -/
inductive ReaderEvent
  /-- An error was reported. -/
  | reported (e : SyntaxError)
  /-- An error was found in a token list that is cut off. -/
  | suppressed (e : SyntaxError)
  /-- A shift was split. -/
  | split (span : Span)
  /-- An angle bracket may open type arguments. -/
  | tryingGenerics (span : Span)
  /-- It does not: no call follows. -/
  | genericsWithoutCall
  /-- It does not: no list of types follows. -/
  | notGenerics (e : SyntaxError)
  /-- A loop has no condition. -/
  | missingCondition (found : Token)
  /-- A loop runs over elements. -/
  | forEachLoop (keyword : Token)
  /-- Reading goes on here after an error. -/
  | resumed (found : Token)
  /-- A statement was read. -/
  | parsed (statement : String)
  /-- All statements were read. -/
  | finished (count : Nat) (hadError : Bool)
  deriving DecidableEq

/-- The name under which readers report. -/
def readerSource : String := "parser"

/-- An event in words. -/
def ReaderEvent.remark : ReaderEvent → Remark
  | .reported e => .finding ⟨.error, readerSource, e.cause.message, e.span⟩
  | .suppressed e => .note ⟨.trace, s!"suppressed {e.cause.message} after lexical error"⟩
  | .split span => .note ⟨.trace, s!"split '>>' at {span.text}"⟩
  | .tryingGenerics span => .note ⟨.trace, s!"trying generic arguments at {span.text}"⟩
  | .genericsWithoutCall =>
    .note ⟨.trace, "generic arguments not followed by '(', treating '<' as less than"⟩
  | .notGenerics e =>
    .note ⟨.trace, s!"not generic arguments ({e.cause.message}), treating '<' as less than"⟩
  | .missingCondition found => .note ⟨.trace, s!"missing condition at {found.text}, using true"⟩
  | .forEachLoop keyword => .note ⟨.debug, s!"'for' at {keyword.text} is a for-each loop"⟩
  | .resumed found => .note ⟨.trace, s!"synchronized at {found.text}"⟩
  | .parsed statement => .note ⟨.trace, s!"parsed {statement}"⟩
  | .finished count hadError =>
    .note ⟨.debug, s!"parsed {count} top level statements (errors: {hadError})"⟩

/-! ### State -/

/-- What the rules of the grammar share. -/
structure ReaderState where
  /-- The place in the tokens. -/
  cursor : Cursor
  /-- Whether an error has been found, in the text or in the tokens. -/
  hadError : Bool
  /-- Whether errors are kept quiet, as the token list is cut off. -/
  quiet : Bool
  /-- What has happened, the latest first. -/
  log : List ReaderEvent

namespace ReaderState

/-- Keeps an event. -/
def note (s : ReaderState) (e : ReaderEvent) : ReaderState := { s with log := e :: s.log }

/-- Reports an error, or keeps it quiet. -/
def report (s : ReaderState) (e : SyntaxError) : ReaderState :=
  { s with hadError := true, log := (if s.quiet then .suppressed e else .reported e) :: s.log }

/-- What has happened, in words and in order. -/
def remarks (s : ReaderState) : List Remark := s.log.reverse.map ReaderEvent.remark

end ReaderState

/-- A rule of the grammar.  A failure keeps the state in which it was met. -/
abbrev Reader := EStateM SyntaxError ReaderState

namespace Reader

/-! ### Looking -/

/-- The next token. -/
def here : Reader Token := fun s => .ok s.cursor.here s

/-- The token after the next one. -/
def second : Reader Token := fun s => .ok s.cursor.second s

/-- Whether the end has been reached. -/
def atEnd : Reader Bool := fun s => .ok s.cursor.atEnd s

/-- Whether there is a next token and it is of a kind. -/
def check (kind : Kind) : Reader Bool := fun s =>
  .ok (!s.cursor.atEnd && s.cursor.here.kind == kind) s

/-! ### Saying -/

/-- Keeps an event. -/
def note (e : ReaderEvent) : Reader Unit := fun s => .ok () (s.note e)

/-- Reports an error and goes on. -/
def report (e : SyntaxError) : Reader Unit := fun s => .ok () (s.report e)

/-- Fails at the next token. -/
def fail {α : Type} (cause : Cause) : Reader α := fun s =>
  .error { cause, token := s.cursor.here } s

/-! ### Moving -/

/-- Moves past the next token and returns it. -/
def advance : Reader Token := fun s =>
  .ok s.cursor.here { s with cursor := s.cursor.advance }

/-- Moves past the next token if it is of a kind. -/
def accept? (kind : Kind) : Reader (Option Token) := do
  if ← check kind then return some (← advance) else return none

/-- Moves past the next token if it is one of some operators. -/
def acceptOperator? (ops : List Operator) : Reader (Option Token) := do
  match (← here).kind with
  | .operator op => if ops.contains op then return some (← advance) else return none
  | _ => return none

/-- Moves past the next token, which has to be of a kind. -/
def expect (kind : Kind) (what : Expectation) : Reader Token := do
  match ← accept? kind with
  | some token => return token
  | none => fail (.expected what)

/-- Moves past the next token if it is a mark. -/
def acceptMark? (mark : Punctuation) : Reader (Option Token) := accept? (.punctuation mark)

/-- Moves past the next token, which has to be a mark. -/
def expectMark (mark : Punctuation) (what : Expectation) : Reader Token :=
  expect (.punctuation mark) what

/-- Moves past the next token, which has to be a name. -/
def expectName (what : Expectation) : Reader Token := expect .identifier what

/-- Moves past a closing angle bracket.  Of a shift only the first half is taken, and the second
half is left for an outer list. -/
def closeAngle? : Reader (Option Token) := do
  match ← accept? (.operator .greater) with
  | some token => return some token
  | none =>
    if ← check (.operator .rsh) then
      let shift ← here
      modify fun s => { s with cursor := s.cursor.splitShift }
      note (.split shift.span)
      return some (halfShift shift 0)
    else return none

/-! ### Trying -/

/-- The place of the cursor. -/
def checkpoint : Reader Checkpoint := fun s => .ok s.cursor.checkpoint s

/-- Takes the cursor back. -/
def restore (k : Checkpoint) : Reader Unit := fun s =>
  .ok () { s with cursor := s.cursor.restore k }

/-- The outcome of a rule, be it a failure. -/
def outcome {α : Type} (rule : Reader α) : Reader (Except SyntaxError α) := fun s =>
  match rule s with
  | .ok a s => .ok (.ok a) s
  | .error e s => .ok (.error e) s

/-! ### Repeating -/

/-- Items with commas between them, at least one.  `fuel` bounds how many commas can follow: when
it is used up nothing is left to read, and the item itself fails. -/
def commaSeparated {α : Type} (item : Reader α) : Nat → Reader (List α)
  | 0 => do return [← item]
  | fuel + 1 => do
    let first ← item
    match ← acceptMark? .comma with
    | some _ => return first :: (← commaSeparated item fuel)
    | none => return [first]

/-- What is left to read, as a bound for rules that call themselves. -/
def remaining : Reader Nat := fun s => .ok s.cursor.remaining s

/-! ### Going on after a failure -/

/-- Whether a token can start a declaration, so that reading can go on there. -/
def startsDeclaration (t : Token) : Bool :=
  match t.kind with
  | .keyword word =>
    [Keyword.klass, .fn, .var, .for, .if, .switch, .while, .return].contains word
  | _ => false

/-- Skips at least one token, and further ones up to the start of a declaration. -/
def resume (s : ReaderState) : ReaderState :=
  let cursor := s.cursor.skipTo startsDeclaration
  { s with cursor }.note (.resumed cursor.here)

/-- Runs a rule.  Its failure is reported, and reading goes on at the next declaration. -/
def recover {α : Type} (rule : Reader α) (s : ReaderState) : Option α × ReaderState :=
  match rule s with
  | .ok a s => (some a, s)
  | .error e s => (none, resume (s.report e))

/-- Runs a rule that cannot make the rule around it fail. -/
def recovered {α : Type} (rule : Reader α) : Reader (Option α) := fun s =>
  let (result, s) := recover rule s
  .ok result s

end Reader
end CurlyScript
