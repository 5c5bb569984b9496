import CurlyScript.Proofs.LossyText
import CurlyScript.Proofs.Snippets

/-!
# Showing any span under any text

A span need not be made for the text that it is shown under: the text of its file may have been
replaced since, or the span may be made by hand.  Showing it works all the same.  A machine that
keeps texts as bytes, refuses to go below zero, above its largest number or past the end of some
bytes is never made to refuse, and the marks stay under the line.  Only a line that cannot be found
is not shown.

## Main definitions

* `Text.Cuts` — an offset inside of a character.
* `Sources.quoted?` — the line of a span.

## Main results

* `Text.dropBytes?_eq_none_iff` — when no text begins at an offset.
* `Sources.exists_padding` — padding covers the characters that begin before the span.
* `Sources.showWithin_eq` — the machine never stops.
* `Sources.highlight_clipped` — every span is shown, and its marks stay under the line.
-/

namespace CurlyScript

/-! ### Offsets at which no text begins -/

namespace Text

/-- The offset is inside of a character of the text. -/
def Cuts (offset : Nat) (cs : List Char) : Prop :=
  ∃ before c after, cs = before ++ c :: after ∧ byteLength before < offset ∧
    offset < byteLength before + c.utf8Size

/-- What begins at an offset comes after as many bytes. -/
theorem exists_of_dropBytes? {offset : Nat} {cs rest : List Char}
    (h : dropBytes? offset cs = some rest) :
    ∃ head, cs = head ++ rest ∧ byteLength head = offset := by
  fun_induction dropBytes? offset cs with
  | case1 cs =>
    cases h
    exact ⟨[], rfl, rfl⟩
  | case2 => cases h
  | case3 n c cs hc ih =>
    obtain ⟨head, rfl, hhead⟩ := ih h
    refine ⟨c :: head, rfl, ?_⟩
    rw [byteLength_cons, hhead]
    omega
  | case4 => cases h

/-- An offset that is neither past the end nor inside of a character begins a text. -/
theorem dropBytes?_eq_none_iff (offset : Nat) (cs : List Char) :
    dropBytes? offset cs = none ↔ byteLength cs < offset ∨ Cuts offset cs := by
  constructor
  · intro h
    fun_induction dropBytes? offset cs with
    | case1 => cases h
    | case2 n => exact .inl (Nat.succ_pos n)
    | case3 n c cs hc ih =>
      rcases ih h with hpast | ⟨before, d, after, rfl, hlow, hhigh⟩
      · exact .inl (by rw [byteLength_cons]; omega)
      · refine .inr ⟨c :: before, d, after, rfl, ?_, ?_⟩ <;> rw [byteLength_cons] <;> omega
    | case4 n c cs hc =>
      exact .inr ⟨[], c, cs, rfl, Nat.succ_pos n, by rw [byteLength_nil]; omega⟩
  · intro h
    rw [Option.eq_none_iff_forall_ne_some]
    intro rest hrest
    obtain ⟨head, rfl, rfl⟩ := exists_of_dropBytes? hrest
    rcases h with hpast | ⟨before, c, after, hsplit, hlow, hhigh⟩
    · rw [byteLength_append] at hpast
      omega
    · -- the character is before the offset or after it
      rcases List.append_eq_append_iff.mp hsplit with ⟨more, hbefore, -⟩ | ⟨more, hhead, hmore⟩
      · rw [hbefore, byteLength_append] at hlow
        omega
      · cases more with
        | nil =>
          rw [hhead, List.append_nil] at hlow
          omega
        | cons d more =>
          rw [List.cons_append, List.cons.injEq] at hmore
          rw [hhead, byteLength_append, byteLength_cons, ← hmore.1] at hhigh
          omega

end Text

/-! ### Shown spans -/

namespace Sources

/-- Padding covers the characters of a line that begin within its first bytes. -/
theorem exists_padding (column : Nat) (line : List Char) :
    ∃ count ≤ line.length, padding column line = (line.take count).map shade ∧
      (∀ k < count, Text.byteLength (line.take k) < column) ∧
      (count < line.length → column ≤ Text.byteLength (line.take count)) := by
  rw [padding_eq]
  fun_induction shades column line with
  | case1 => exact ⟨0, Nat.zero_le _, rfl, by simp, by simp⟩
  | case2 => exact ⟨0, Nat.zero_le _, rfl, by simp, by simp⟩
  | case3 column c line ih =>
    obtain ⟨count, hcount, hpadding, hwithin, hpast⟩ := ih
    refine ⟨count + 1, Nat.succ_le_succ hcount, ?_, ?_, ?_⟩
    · rw [hpadding]
      rfl
    · intro k hk
      cases k with
      | zero => exact Nat.succ_pos column
      | succ k =>
        have hk' := hwithin k (by omega)
        rw [List.take_succ_cons, Text.byteLength_cons]
        omega
    · intro hlength
      have hcount' := hpast (by simpa using hlength)
      rw [List.take_succ_cons, Text.byteLength_cons]
      omega

/-- The line of a span, if it can be found. -/
def quoted? (s : Sources) (span : Span) : Option (List Char) :=
  (s.text? span.file).bind fun text => lineAt? text.toList span.lineStart

/-- A span whose line can be found is shown with padding and carets under the line. -/
theorem highlight_of_quoted {s : Sources} {span : Span} {line : List Char}
    (h : s.quoted? span = some line) :
    s.highlight span =
      String.ofList (line ++ '\n' :: marksUnder span line) ++ s!"\n[{span.text}] " := by
  obtain ⟨text, htext, hline⟩ := Option.bind_eq_some_iff.mp h
  simp only [highlight, snippet?, htext, hline, Option.bind_eq_bind, Option.bind_some]
  rw [markedLine, List.append_assoc]
  rfl

/-- Otherwise only its place is shown. -/
theorem highlight_of_not_quoted {s : Sources} {span : Span} (h : s.quoted? span = none) :
    s.highlight span = span.text := by
  have hsnippet : s.snippet? span = none := by
    cases htext : s.text? span.file with
    | none => simp only [snippet?, htext, Option.bind_eq_bind, Option.bind_none]
    | some text =>
      rw [quoted?, htext, Option.bind_some] at h
      simp only [snippet?, htext, h, Option.bind_eq_bind, Option.bind_some, Option.bind_none]
  rw [highlight, hsnippet, Option.getD_none]

/-- Only the place is shown exactly if the line cannot be found. -/
theorem highlight_eq_text_iff (s : Sources) (span : Span) :
    s.highlight span = span.text ↔ s.quoted? span = none := by
  refine ⟨fun h => ?_, highlight_of_not_quoted⟩
  rw [Option.eq_none_iff_forall_ne_some]
  intro line hquoted
  -- what is shown under a line holds the place, and more than that
  have hlength := congrArg String.length h
  rw [highlight_of_quoted hquoted, String.length_append] at hlength
  have hplace : s!"\n[{span.text}] ".length = 2 + span.text.length + 2 := by
    show ("\n[" ++ span.text ++ "] ").length = _
    rw [String.length_append, String.length_append]
    rfl
  omega

/-- A line can be found where a text begins. -/
theorem quoted?_eq_none_iff (s : Sources) (span : Span) :
    s.quoted? span = none ↔ s.text? span.file = none ∨ ∃ text, s.text? span.file = some text ∧
      (Text.byteLength text.toList < span.lineStart ∨ Text.Cuts span.lineStart text.toList) := by
  rw [quoted?]
  cases s.text? span.file with
  | none => simp
  | some text =>
    rw [Option.bind_some, lineAt?, Option.map_eq_none_iff, Text.dropBytes?_eq_none_iff]
    simp

/-- A line is what stands between an offset and the next newline, without a carriage return. -/
theorem exists_of_quoted {s : Sources} {span : Span} {line : List Char}
    (h : s.quoted? span = some line) :
    ∃ text head tail, s.text? span.file = some text ∧ text.toList = head ++ tail ∧
      Text.byteLength head = span.lineStart ∧
      line = stripReturn (tail.takeWhile (· != '\n')) ∧ line <+: tail ∧ '\n' ∉ line := by
  obtain ⟨text, htext, hline⟩ := Option.bind_eq_some_iff.mp h
  obtain ⟨tail, hdrop, rfl⟩ := Option.map_eq_some_iff.mp hline
  obtain ⟨head, hsplit, hhead⟩ := Text.exists_of_dropBytes? hdrop
  have hwhole := stripReturn_ahead (tail.takeWhile (· != '\n'))
  refine ⟨text, head, tail, htext, hsplit, hhead, rfl, ?_, ?_⟩
  · exact hwhole.trans (List.takeWhile_prefix _)
  · intro hmem
    have hne := List.mem_takeWhile_imp (hwhole.subset hmem)
    simp at hne

/-- A machine that can count the bytes of the text shows the span, and never stops before. -/
theorem showWithin_eq {largest : Nat} {s : Sources} {span : Span} (hlargest : 0 < largest)
    (hfits : ∀ text ∈ s.text? span.file, Text.byteLength text.toList ≤ largest) :
    s.showWithin largest span = .ok (s.highlight span) := by
  have hcolumn : Machine.difference span.start span.lineStart = .ok span.column :=
    if_pos span.lineStart_le_start
  rw [showWithin, hcolumn]
  cases hquoted : s.quoted? span with
  | none =>
    rw [highlight_of_not_quoted hquoted]
    rw [quoted?] at hquoted
    simp only [hquoted]
    rfl
  | some line =>
    obtain ⟨text, head, tail, htext, hsplit, hhead, -, ⟨rest, rfl⟩, -⟩ := exists_of_quoted hquoted
    have hbytes := hfits text htext
    rw [hsplit, Text.byteLength_append, Text.byteLength_append, hhead] at hbytes
    have hlength := Text.length_encode line
    have hfront : Machine.front (min span.column (Text.byteLength line)) (Text.encode line) =
        .ok ((Text.encode line).take (min span.column (Text.byteLength line))) :=
      if_pos (hlength ▸ Nat.min_le_right _ _)
    have hend : Machine.sum largest span.lineStart (Text.byteLength line) =
        .ok (span.lineStart + Text.byteLength line) := if_pos (by omega)
    have hcarets : Machine.copies largest (caretCount span (Text.byteLength line)) '^' =
        .ok (List.replicate (caretCount span (Text.byteLength line)) '^') := by
      have hstart := span.lineStart_le_start
      refine if_pos ?_
      rw [caretCount]
      omega
    rw [highlight_of_quoted hquoted, marksUnder, padding]
    rw [quoted?] at hquoted
    simp only [hquoted, hlength]
    show Except.bind (Machine.front (min span.column (Text.byteLength line)) _) _ = _
    rw [hfront]
    show Except.bind _ _ = _
    rw [hend]
    show Except.bind (Machine.copies largest (caretCount span (Text.byteLength line)) '^') _ = _
    rw [hcarets]
    rfl

/-- **Every span is shown, and its marks stay under the line.**

A span is shown under the text that is registered for its file, whatever this text is.  A machine
whose numbers go up to the number of bytes of the text never stops on the way: no difference is
below zero, no sum too large, and no bytes are asked for that are not there.  Only the place of the
span is shown exactly if there is no text, or if the line would begin past its end or inside of a
character.

Otherwise the line is what stands between there and the next newline, without a carriage return at
its end.  Under it the padding covers the characters that begin before the span, which are at most
those of the line, and there is at least one caret, but no more of them than the line has bytes from
the start of the span on, if it has any. -/
theorem highlight_clipped {largest : Nat} {s : Sources} {span : Span} (hlargest : 0 < largest)
    (hfits : ∀ text ∈ s.text? span.file, Text.byteLength text.toList ≤ largest) :
    s.showWithin largest span = .ok (s.highlight span) ∧
    (s.highlight span = span.text ↔ s.text? span.file = none ∨
      ∃ text, s.text? span.file = some text ∧
        (Text.byteLength text.toList < span.lineStart ∨ Text.Cuts span.lineStart text.toList)) ∧
    (s.highlight span ≠ span.text → ∃ text head tail line count carets,
      s.text? span.file = some text ∧ text.toList = head ++ tail ∧
      Text.byteLength head = span.lineStart ∧
      line = stripReturn (tail.takeWhile (· != '\n')) ∧ '\n' ∉ line ∧
      s.highlight span = String.ofList (line ++ '\n' :: ((line.take count).map shade ++
        List.replicate carets '^')) ++ s!"\n[{span.text}] " ∧
      count ≤ line.length ∧ (∀ k < count, Text.byteLength (line.take k) < span.column) ∧
      (count < line.length → span.column ≤ Text.byteLength (line.take count)) ∧
      1 ≤ carets ∧ carets ≤ max 1 (Text.byteLength line - span.column)) := by
  refine ⟨showWithin_eq hlargest hfits,
    (highlight_eq_text_iff s span).trans (quoted?_eq_none_iff s span), ?_⟩
  intro hshown
  rw [Ne, highlight_eq_text_iff] at hshown
  obtain ⟨line, hquoted⟩ := Option.ne_none_iff_exists'.mp hshown
  obtain ⟨text, head, tail, htext, hsplit, hhead, hline, -, hnewline⟩ := exists_of_quoted hquoted
  obtain ⟨count, hcount, hpadding, hwithin, hpast⟩ :=
    exists_padding (min span.column (Text.byteLength line)) line
  refine ⟨text, head, tail, line, count, caretCount span (Text.byteLength line), htext, hsplit,
    hhead, hline, hnewline, ?_, hcount, ?_, ?_, Nat.le_max_right _ _, ?_⟩
  · rw [highlight_of_quoted hquoted, marksUnder, hpadding]
  · intro k hk
    exact (lt_min_iff.mp (hwithin k hk)).1
  · intro hshort
    have hrest : 0 < Text.byteLength (line.drop count) := by
      refine Nat.lt_of_lt_of_le ?_ (Text.length_le_byteLength _)
      rw [List.length_drop]
      omega
    have hwhole := Text.byteLength_append (line.take count) (line.drop count)
    rw [List.take_append_drop] at hwhole
    have hcovered := hpast hshort
    omega
  · have hstart := span.lineStart_le_start
    rw [caretCount, Span.column]
    omega

/-- This span starts inside of a character and ends far behind the text.  Three characters begin
before it, and one byte of its line is left. -/
theorem highlight_clipped_inside_character :
    let s := ({} : Sources).register "f" "a\té\r\nz"
    let span : Span := ⟨"f", 1, 0, 3, 99, by decide, by decide⟩
    0 < 7 ∧ (∀ text ∈ s.text? span.file, Text.byteLength text.toList ≤ 7) ∧
    s.showWithin 7 span = .ok "a\té\n \t ^\n[f:1:3] " ∧ s.highlight span ≠ span.text ∧
    ∃ line count carets, '\n' ∉ line ∧ s.highlight span = String.ofList (line ++
        '\n' :: ((line.take count).map shade ++ List.replicate carets '^')) ++ "\n[f:1:3] " ∧
      count ≤ line.length ∧ 1 ≤ carets ∧ carets ≤ max 1 (Text.byteLength line - 3) := by
  intro s span
  have hfits : ∀ text ∈ s.text? span.file, Text.byteLength text.toList ≤ 7 := by
    intro text htext
    rw [show s.text? span.file = some "a\té\r\nz" from by decide, Option.mem_some] at htext
    rw [← htext]
    decide
  have hshown : s.highlight span = "a\té\n \t ^\n[f:1:3] " := by decide +kernel
  have hplace : s.highlight span ≠ span.text := by
    rw [hshown]
    decide +kernel
  obtain ⟨hmachine, -, hclipped⟩ := highlight_clipped (by decide : 0 < 7) hfits
  obtain ⟨text, head, tail, line, count, carets, -, -, -, -, hnewline, hmarks, hcount, -, -,
    hleast, hmost⟩ := hclipped hplace
  have htrailer : s!"\n[{span.text}] " = "\n[f:1:3] " := by decide +kernel
  rw [htrailer] at hmarks
  refine ⟨by decide, hfits, ?_, hplace, line, count, carets, hnewline, hmarks, hcount, hleast,
    hmost⟩
  rw [hmachine, hshown]

end Sources
end CurlyScript
