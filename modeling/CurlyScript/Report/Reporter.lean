import CurlyScript.Frontend
import CurlyScript.Report.Logger
import CurlyScript.Report.Sources

/-!
# Reporters

A reporter knows the texts of the files that are worked on, and where reports go.  The stages of
the front end are run under it: the text is registered first, so that what is found in it can be
shown, and the findings are logged in the order in which they are made.

## Main definitions

* `Reporter` — sources and a tree of loggers.
* `Reporter.emit` — a message about a span.
* `Reporter.lex`, `Reporter.parse` — the stages of the front end, with their findings logged.

## References

`SPEC_FULL.md`, section 4.1, and section E6, item 9.
-/

namespace CurlyScript

/-- The texts of the files that are worked on, and where reports go. -/
structure Reporter where
  /-- The registered texts. -/
  sources : Sources := {}
  /-- Where reports go. -/
  logger : Logger

namespace Reporter

/-- Registers the text of a file. -/
def register (r : Reporter) (file text : String) : Reporter :=
  { r with sources := r.sources.register file text }

/-- Logs a record. -/
def log (r : Reporter) (record : Record) : Reporter :=
  { r with logger := r.logger.log record }

/-- Logs a message about a span. -/
def emit (r : Reporter) (severity : Severity) (source : Option String) (message : String)
    (span : Span) : Reporter :=
  r.log { severity, source, message := r.sources.annotate message span }

/-- Logs the findings among some remarks. -/
def logFindings (r : Reporter) (remarks : List Remark) : Reporter :=
  { r with logger := r.logger.logAll (r.sources.records remarks) }

/-- The tokens of a text, with what is found in it logged. -/
def lex (r : Reporter) (file text : String) : TokenStream × Reporter :=
  let (stream, remarks) := Frontend.lex file text
  (stream, (r.register file text).logFindings remarks)

/-- The statements of a text, with what is found in it logged. -/
def parse (r : Reporter) (file text : String) : Program × Reporter :=
  let (program, remarks) := Frontend.parse file text
  (program, (r.register file text).logFindings remarks)

end Reporter

/-! ### Listings -/

/-- A token in a listing: place, kind and text. -/
def Token.listing (t : Token) : String := s!"{t.span.text}\t{t.kind.text}\t{t.text}"

/-- A statement in a listing: place and kind. -/
def Stmt.listing (s : Stmt) : String := s!"{s.span.text}\t{s.name}"

end CurlyScript
