import CurlyScript.Machine
import CurlyScript.Report.Record
import CurlyScript.Report.Remark
import CurlyScript.Text.Utf8

/-!
# Registered sources and their snippets

Reports about a span show the line it starts on with carets under it, so the texts of the
files are kept by name.  The columns and the number of carets count bytes; the padding before
the carets has one character for every character of the line.

## Main definitions

* `Sources` — the registered texts.
* `Sources.snippet?` — line, carets and place of a span.
* `Sources.highlight` — the snippet, or only the place.
* `Sources.showWithin` — the same on a machine, whose steps may stop it.
* `Sources.annotate` — a message with the snippet or the place before it.

## References

`SPEC_FULL.md`, section 4.1, and section E7 for lines and carets.
-/

namespace CurlyScript

/-- The texts of the files that are known by name, the latest first.  A name has one text. -/
structure Sources where
  /-- The names with their texts. -/
  texts : List (String × String) := []

namespace Sources

/-! ### The texts -/

/-- Registers the text of a file.  It takes the place of an earlier text of the same file. -/
def register (s : Sources) (file text : String) : Sources :=
  ⟨(file, text) :: s.texts.filter (·.1 != file)⟩

/-- The registered text of a file. -/
def text? (s : Sources) (file : String) : Option String :=
  (s.texts.find? (·.1 == file)).map Prod.snd

/-- The names of the files, in a dump. -/
def dump (s : Sources) : String :=
  let names := s.texts.map fun entry => Span.dumpFile entry.1
  "Diagnostics \x7b sources: [" ++ String.intercalate ", " names ++ "], .. \x7d"

theorem text?_register_of_ne (s : Sources) {file other : String} (text : String)
    (h : other ≠ file) : (s.register file text).text? other = s.text? other := by
  unfold register text?
  rw [List.find?_cons_of_neg (by simpa using Ne.symm h)]
  congr 1
  induction s.texts with
  | nil => rfl
  | cons entry rest ih =>
    by_cases hentry : entry.1 = file
    · rw [List.filter_cons_of_neg (by simp [hentry]),
        List.find?_cons_of_neg (by simpa [hentry] using Ne.symm h)]
      exact ih
    · rw [List.filter_cons_of_pos (by simp [hentry])]
      by_cases hother : entry.1 = other
      · rw [List.find?_cons_of_pos (by simp [hother]), List.find?_cons_of_pos (by simp [hother])]
      · rw [List.find?_cons_of_neg (by simp [hother]), List.find?_cons_of_neg (by simp [hother])]
        exact ih

/-! ### Snippets -/

/-- A line without the carriage return at its end. -/
def stripReturn (line : List Char) : List Char :=
  if line.getLast? = some '\r' then line.dropLast else line

/-- The line that begins at an offset, without its line terminator.  There is none when the
offset is past the end of the text or inside a character. -/
def lineAt? (text : List Char) (lineStart : Nat) : Option (List Char) :=
  (Text.dropBytes? lineStart text).map fun rest => stripReturn (rest.takeWhile (· != '\n'))

/-- What stands under a character before the carets. -/
def shade (c : Char) : Char := if c = '\t' then '\t' else ' '

/-- What stands under the first bytes of a line, as they are read: tabs under tabs, blanks under
everything else. -/
def padding (column : Nat) (line : List Char) : List Char :=
  (Text.decode ((Text.encode line).take column)).map shade

/-- How many carets a span gets on a line of so many bytes: one for every byte of it that is on
the line, and at least one. -/
def caretCount (span : Span) (lineBytes : Nat) : Nat :=
  max (min span.stop (span.lineStart + lineBytes) - span.start) 1

/-- The two lines that show a span. -/
def markedLine (span : Span) (line : List Char) : List Char :=
  let bytes := Text.byteLength line
  line ++ '\n' :: padding (min span.column bytes) line ++
    List.replicate (caretCount span bytes) '^'

/-- The line of a span with carets under the span, and its place.  There is none when the file
is not registered or has no such line. -/
def snippet? (s : Sources) (span : Span) : Option String := do
  let text ← s.text? span.file
  let line ← lineAt? text.toList span.lineStart
  return String.ofList (markedLine span line) ++ s!"\n[{span.text}] "

/-- The snippet of a span, or only its place. -/
def highlight (s : Sources) (span : Span) : String := (s.snippet? span).getD span.text

/-- The snippet of a span, or only its place, on a machine.  The padding is what is read of the
bytes of the line before the span. -/
def showWithin (largest : Nat) (s : Sources) (span : Span) : Except Halt String := do
  let column ← Machine.difference span.start span.lineStart
  let place := s!"{span.file}:{span.line}:{column}"
  match (s.text? span.file).bind fun text => lineAt? text.toList span.lineStart with
  | none => return place
  | some line =>
    let bytes := Text.encode line
    let front ← Machine.front (min column bytes.length) bytes
    let lineEnd ← Machine.sum largest span.lineStart bytes.length
    let carets ← Machine.copies largest (max (min span.stop lineEnd - span.start) 1) '^'
    let marks := (Text.decode front).map shade ++ carets
    return String.ofList (line ++ '\n' :: marks) ++ s!"\n[{place}] "

/-- A message about a span. -/
def annotate (s : Sources) (message : String) (span : Span) : String :=
  match s.snippet? span with
  | some snippet => snippet ++ message
  | none => s!"[{span.text}] {message}"

/-- A finding as it is delivered. -/
def record (s : Sources) (f : Finding) : Record :=
  { severity := f.severity, source := some f.source, message := s.annotate f.message f.span }

/-- The findings among remarks, as they are delivered. -/
def records (s : Sources) (remarks : List Remark) : List Record :=
  (findings remarks).map s.record

end Sources
end CurlyScript
