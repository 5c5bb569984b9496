import CurlyScript.Grammar.StmtRules
import CurlyScript.Lexer.Basic

/-!
# The front end

From the text of a file to its tokens and to its statements.  Both come with all that the
stages have to say, in the order in which they say it.

## Main definitions

* `Program` — the statements of a file, and whether anything was wrong.
* `ReaderState.ofStream` — a reader before the first of some tokens.
* `Frontend.lex` — the tokens of a text.
* `Frontend.parse` — the statements of a text.

## References

`SPEC_FULL.md`, section 2, and section E6, item 9.
-/

namespace CurlyScript

/-- The statements of a file. -/
structure Program where
  /-- The statements at the top level, in the order in which they are written. -/
  statements : List Stmt
  /-- Whether the text or its tokens had an error. -/
  hadError : Bool

/-- Sameness of programs up to the places of their tokens. -/
def Program.same (a b : Program) : Bool :=
  sameStmts a.statements b.statements && a.hadError == b.hadError

/-- A reader before the first of some tokens.  If the text had an error its tokens are cut off,
and what is missing is not reported again. -/
def ReaderState.ofStream (stream : TokenStream) : ReaderState :=
  { cursor := .ofTokens stream.tokens, hadError := stream.hadError, quiet := stream.hadError
    log := [] }

namespace Frontend

/-- The tokens of a text. -/
def lex (file text : String) : TokenStream × List Remark :=
  let (stream, events) := (Lexer.ofText file text).tokenize
  (stream, events.map LexerEvent.remark)

/-- The statements of a text.  Tokens before a lexical error are still read. -/
def parse (file text : String) : Program × List Remark :=
  let (stream, lexing) := lex file text
  let (statements, state) := Reader.parse (.ofStream stream)
  let summary := s!"parsed {statements.length} statements from {file}"
  ({ statements, hadError := state.hadError },
    lexing ++ state.remarks ++ [.note ⟨.debug, summary⟩])

end Frontend
end CurlyScript
