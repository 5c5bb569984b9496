import CurlyScript.Report.Severity
import CurlyScript.Span

/-!
# Remarks

What a stage of the front end has to say while it works.  A finding is about a span of the
source and is meant for whoever wrote it; a note tells how the stage went on.

## Main definitions

* `Finding` — severity, reporting stage, message and span.
* `Note` — a message at one of two levels of detail.
* `Remark` — either of them, in the order in which they are made.

## References

`SPEC_FULL.md`, section 7 for the findings and section E3 for the notes.
-/

namespace CurlyScript

/-- A message about a span of source text. -/
structure Finding where
  /-- How serious it is. -/
  severity : Severity
  /-- The stage that reports it. -/
  source : String
  /-- What is reported. -/
  message : String
  /-- Where it is. -/
  span : Span
  deriving DecidableEq

/-- How detailed a note is. -/
inductive Detail
  /-- Every single step. -/
  | trace
  /-- The outcome of a stage, and where it took an unusual turn. -/
  | debug
  deriving DecidableEq

/-- The name of a level of detail. -/
def Detail.name : Detail → String
  | .trace => "TRACE"
  | .debug => "DEBUG"

/-- A message about the course of a stage. -/
structure Note where
  /-- How detailed the note is. -/
  detail : Detail
  /-- What is noted. -/
  message : String
  deriving DecidableEq

/-- What a stage has to say. -/
inductive Remark
  /-- For whoever wrote the source. -/
  | finding (f : Finding)
  /-- For whoever watches the stage. -/
  | note (n : Note)
  deriving DecidableEq

namespace Remark

/-- The finding of a remark. -/
def finding? : Remark → Option Finding
  | .finding f => some f
  | .note _ => none

/-- The note of a remark. -/
def note? : Remark → Option Note
  | .finding _ => none
  | .note n => some n

end Remark

/-- The findings among remarks, in order. -/
def findings (remarks : List Remark) : List Finding := remarks.filterMap Remark.finding?

/-- The notes among remarks, in order. -/
def notes (remarks : List Remark) : List Note := remarks.filterMap Remark.note?

@[simp] theorem findings_append (as bs : List Remark) :
    findings (as ++ bs) = findings as ++ findings bs := List.filterMap_append

@[simp] theorem notes_append (as bs : List Remark) : notes (as ++ bs) = notes as ++ notes bs :=
  List.filterMap_append

end CurlyScript
