import CurlyScript.Text.Quoted

/-!
# Spans of source text

A span is a half-open range of bytes in one file, together with the line it starts on.  The
order of its three offsets is part of the type, so every span that exists can be shown under
its line.

## Main definitions

* `Span` — file, line, start of the line, start and end of the range.
* `Span.ofOffsets` — a span from unchecked offsets, or the reason why there is none.
* `Span.join` — the span that covers two spans of one file.
* `Span.cover` — the same, falling back to the first span.
* `Span.atEnd` — the empty span right after a span.

## References

`SPEC_FULL.md`, section 3, under `TextSpan`; joined spans in section E6, item 8.
-/

namespace CurlyScript

/-- The bytes from `start` up to `stop` of a file.  Lines count from one, and `lineStart` is
the offset at which the line of `start` begins. -/
structure Span where
  /-- The name of the file. -/
  file : String
  /-- The line on which the span starts. -/
  line : Nat
  /-- The offset at which that line begins. -/
  lineStart : Nat
  /-- The offset of the first byte. -/
  start : Nat
  /-- The offset after the last byte. -/
  stop : Nat
  /-- A span starts on its line. -/
  lineStart_le_start : lineStart ≤ start
  /-- A span does not end before it starts. -/
  start_le_stop : start ≤ stop
  deriving DecidableEq

namespace Span

/-! ### Building spans -/

/-- Why offsets make no span. -/
inductive Fault
  /-- The start lies after the end. -/
  | startAfterEnd (start stop : Nat)
  /-- The start lies before its line. -/
  | startBeforeLine (start lineStart : Nat)
  deriving DecidableEq

/-- The wording of a fault. -/
def Fault.message : Fault → String
  | .startAfterEnd start stop => s!"span start {start} is after its end {stop}"
  | .startBeforeLine start lineStart =>
    s!"span start {start} is before the start of its line {lineStart}"

/-- A span from unchecked offsets.  The end is compared first. -/
def ofOffsets (file : String) (line lineStart start stop : Nat) : Except Fault Span :=
  if h : start ≤ stop then
    if h' : lineStart ≤ start then .ok ⟨file, line, lineStart, start, stop, h', h⟩
    else .error (.startBeforeLine start lineStart)
  else .error (.startAfterEnd start stop)

/-- The empty span at the start of a file. -/
def atOrigin (file : String) : Span := ⟨file, 1, 0, 0, 0, Nat.le_refl 0, Nat.le_refl 0⟩

/-- The empty span right after a span. -/
def atEnd (s : Span) : Span :=
  { s with
    start := s.stop
    lineStart_le_start := Nat.le_trans s.lineStart_le_start s.start_le_stop
    start_le_stop := Nat.le_refl s.stop }

/-- The span that covers both spans, with the line of the one that starts first.  There is
none when the files differ. -/
def join (a b : Span) : Option Span :=
  if a.file = b.file then
    some (if a.start ≤ b.start then
      { a with
        stop := max a.stop b.stop
        start_le_stop := Nat.le_trans a.start_le_stop (Nat.le_max_left ..) }
    else
      { b with
        stop := max a.stop b.stop
        start_le_stop := Nat.le_trans b.start_le_stop (Nat.le_max_right ..) })
  else none

/-- From the start of `first` to the end of `last`, or `first` alone when they are of
different files. -/
def cover (first last : Span) : Span := (first.join last).getD first

/-! ### Measures and texts -/

/-- The number of bytes between the start of the line and the span. -/
def column (s : Span) : Nat := s.start - s.lineStart

/-- The number of bytes of the span. -/
def length (s : Span) : Nat := s.stop - s.start

/-- Whether the span has no bytes. -/
def isEmpty (s : Span) : Bool := s.start == s.stop

/-- The place of a span, as `file:line:column`. -/
def text (s : Span) : String := s!"{s.file}:{s.line}:{s.column}"

/-- How a file is named in a dump. -/
def dumpFile (file : String) : String := s!"FileId({Text.quote file})"

/-- All five parts of a span. -/
def dump (s : Span) : String :=
  "TextSpan \x7b " ++ s!"file: {dumpFile s.file}, line: {s.line}, line_start: {s.lineStart}, " ++
    s!"start: {s.start}, end: {s.stop}" ++ " \x7d"

@[simp] theorem start_atEnd (s : Span) : s.atEnd.start = s.stop := rfl

@[simp] theorem stop_atEnd (s : Span) : s.atEnd.stop = s.stop := rfl

end Span
end CurlyScript
