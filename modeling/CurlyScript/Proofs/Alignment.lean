import CurlyScript.Proofs.Snippets
import CurlyScript.Report.Writer

/-!
# How the lines of a written record line up

The later lines of a record are indented so that they begin under its message.  They are cut where
the message has its newlines, so nothing of the message is lost.  The indentation is as wide as
what stands before the message on the first line, measured in bytes.  The header has one byte for
each character, but the name of a source need not, and then the later lines begin too far to the
right.

## Main definitions

* `Writer.lead` — what stands before the message on the first line of a record.

## Main results

* `Writer.pieces_body` — the lines of a written record.
* `Writer.byteLength_lead_iff` — when the indentation is as wide as what it stands under.
* `Writer.written_lines` — how a writer sets a record, and when its lines begin under each other.
-/

namespace CurlyScript

/-- What is put in front of a list becomes part of its first piece. -/
theorem Text.pieces_append_of_notMem {α : Type} [DecidableEq α] {separator : α}
    {as bs first : List α} {rest : List (List α)} (has : separator ∉ as)
    (hbs : pieces separator bs = first :: rest) :
    pieces separator (as ++ bs) = (as ++ first) :: rest := by
  induction as with
  | nil => exact hbs
  | cons a as ih =>
    rw [List.mem_cons, not_or] at has
    rw [List.cons_append, pieces, if_neg (Ne.symm has.1), ih has.2]
    rfl

namespace Writer

/-! ### The lines of a record -/

/-- What stands before the message on the first line of a record. -/
def lead (r : Record) : List Char := header r.severity ++ sourceTag r.source

theorem newline_notMem_replicate (indent : Nat) : '\n' ∉ List.replicate indent ' ' := by
  intro hmem
  have hblank := List.eq_of_mem_replicate hmem
  revert hblank
  decide

/-- Hanging a text puts blanks in front of its later lines and changes nothing else. -/
theorem pieces_hang (indent : Nat) {text first : List Char} {rest : List (List Char)}
    (h : Text.pieces '\n' text = first :: rest) :
    Text.pieces '\n' (hang indent text) = first :: rest.map (List.replicate indent ' ' ++ ·) := by
  induction text generalizing first rest with
  | nil =>
    cases h
    rfl
  | cons c cs ih =>
    obtain ⟨next, more, hcs⟩ := Text.exists_pieces_eq_cons '\n' cs
    rw [Text.pieces, hcs] at h
    rw [hang]
    by_cases hc : c = '\n'
    · rw [if_pos hc] at h ⊢
      cases h
      rw [Text.pieces, if_pos rfl,
        Text.pieces_append_of_notMem (newline_notMem_replicate indent) (ih hcs)]
      rfl
    · rw [if_neg hc] at h ⊢
      cases h
      rw [Text.pieces, if_neg hc, ih hcs]
      rfl

/-- A header is one line. -/
theorem newline_notMem_header (severity : Severity) : '\n' ∉ header severity := by
  cases severity <;> decide

/-- The name of a source that has no newline is not broken up. -/
theorem newline_notMem_sourceTag {source : Option String}
    (h : ∀ name ∈ source, '\n' ∉ name.toList) : '\n' ∉ sourceTag source := by
  cases source with
  | none => exact List.not_mem_nil
  | some name =>
    rw [sourceTag, List.mem_append, not_or]
    exact ⟨h name rfl, by decide⟩

/-- The lines of a record: the first line of the message after the header and the source, and the
others after blanks. -/
theorem pieces_body {r : Record} (h : ∀ name ∈ r.source, '\n' ∉ name.toList)
    {first : List Char} {rest : List (List Char)}
    (hmessage : Text.pieces '\n' r.message.toList = first :: rest) :
    Text.pieces '\n' (body r) =
      (lead r ++ first) :: rest.map (List.replicate (Text.byteLength (lead r)) ' ' ++ ·) := by
  have htag := newline_notMem_sourceTag h
  have hlead : '\n' ∉ lead r := by
    rw [lead, List.mem_append, not_or]
    exact ⟨newline_notMem_header r.severity, htag⟩
  have hbody : body r = lead r ++ hang (Text.byteLength (lead r)) r.message.toList := by
    rw [lead, Text.byteLength_append, List.append_assoc]
    show header r.severity ++ hang (indent r) _ = _
    rw [hang_append, hang_of_notMem _ htag]
    rfl
  rw [hbody]
  exact Text.pieces_append_of_notMem hlead (pieces_hang _ hmessage)

/-! ### Bytes and characters -/

/-- A header has one byte for each of its characters. -/
theorem utf8Size_of_mem_header {severity : Severity} : ∀ c ∈ header severity, c.utf8Size = 1 := by
  have hall : (header severity).all (·.utf8Size == 1) = true := by cases severity <;> decide
  simpa using hall

/-- What stands before the message has as many bytes as characters exactly if the name of the
source has. -/
theorem byteLength_lead_iff (r : Record) :
    Text.byteLength (lead r) = (lead r).length ↔
      ∀ name ∈ r.source, ∀ c ∈ name.toList, c.utf8Size = 1 := by
  have hcolon : ∀ c ∈ [':', ' '], c.utf8Size = 1 := by simp [Char.utf8Size]
  rw [Text.byteLength_eq_length_iff, lead, List.forall_mem_append,
    and_iff_right utf8Size_of_mem_header]
  cases r.source with
  | none => exact iff_of_true (fun _ hmem => absurd hmem List.not_mem_nil) nofun
  | some name =>
    rw [sourceTag, List.forall_mem_append, and_iff_left hcolon]
    exact ⟨fun h _ hname => Option.mem_some.mp hname ▸ h, fun h => h name rfl⟩

/-- Lines that are indented come back when fewer characters are taken off only if there are none. -/
theorem map_drop_indented_iff {count indent : Nat} (h : count ≤ indent) (lines : List (List Char)) :
    (lines.map (List.replicate indent ' ' ++ ·)).map (List.drop count) = lines ↔
      lines = [] ∨ indent = count := by
  have hdrop (line : List Char) : (List.replicate indent ' ' ++ line).drop count =
      List.replicate (indent - count) ' ' ++ line := by
    rw [List.drop_append_of_le_length (by rwa [List.length_replicate]), List.drop_replicate]
  rw [List.map_map, Function.comp_def]
  simp only [hdrop]
  constructor
  · intro hlines
    cases lines with
    | nil => exact .inl rfl
    | cons line lines =>
      have hlength := congrArg List.length (List.cons.inj hlines).1
      rw [List.length_append, List.length_replicate] at hlength
      exact .inr (by omega)
  · rintro (rfl | rfl)
    · rfl
    · simp

/-- **Later lines are indented by bytes.**

A record that is not below the least severity of a writer without colors is written as one text,
with a newline after it.  The text begins with the header and the source.  It has as many lines as
the message: the first one is the first line of the message after the header and the source, and
each other one is a line of the message after as many blanks as the header and the source have
bytes.  So every line gives back its line of the message, once what stands before it is taken off.

Taking as many characters off every line as there are before the message on the first one gives
back the message exactly if the message is one line or all characters in the name of the source
have one byte. -/
theorem written_lines {w : Writer} {r : Record} (hcolored : w.colored = false)
    (hleast : r.severity.atLeast w.least = true)
    (hsource : ∀ name ∈ r.source, '\n' ∉ name.toList) :
    ∃ text first rest, (w.receive r).stream = w.stream.write (String.ofList (text ++ ['\n'])) ∧
      lead r <+: text ∧ Text.pieces '\n' r.message.toList = first :: rest ∧
      Text.pieces '\n' text =
        (lead r ++ first) :: rest.map (List.replicate (Text.byteLength (lead r)) ' ' ++ ·) ∧
      ((Text.pieces '\n' text).map (List.drop (lead r).length) =
          Text.pieces '\n' r.message.toList ↔
        rest = [] ∨ ∀ name ∈ r.source, ∀ c ∈ name.toList, c.utf8Size = 1) := by
  obtain ⟨first, rest, hmessage⟩ := Text.exists_pieces_eq_cons '\n' r.message.toList
  have hlines := pieces_body hsource hmessage
  have hlead : lead r <+: body r := by
    rw [body, hang_append, hang_of_notMem _ (newline_notMem_sourceTag hsource), ← List.append_assoc]
    exact List.prefix_append _ _
  refine ⟨body r, first, rest, ?_, hlead, hmessage, hlines, ?_⟩
  · rw [receive, if_pos hleast, line, hcolored, String.ofList_append]
    rfl
  · -- the first line comes back anyway, and the others do without the blanks that are too many
    have hdrop := map_drop_indented_iff (Text.length_le_byteLength (lead r)) rest
    rw [hlines, hmessage, List.map_cons, List.drop_left, List.cons_inj_right, hdrop,
      byteLength_lead_iff]

/-- Three lines of a message, the second of them empty, after a source of five characters. -/
theorem written_lines_blank_line :
    let w : Writer := {}
    let r : Record := { severity := .error, source := some "lexer", message := "a\n\nb" }
    w.colored = false ∧ r.severity.atLeast w.least = true ∧
    (∀ name ∈ r.source, '\n' ∉ name.toList) ∧
    ∃ text, (w.receive r).stream = w.stream.write (String.ofList (text ++ ['\n'])) ∧
      Text.pieces '\n' text = ["[Error ] lexer: a".toList, "                ".toList,
        "                b".toList] ∧
      (Text.pieces '\n' text).map (List.drop 16) = ["a".toList, [], "b".toList] := by
  intro w r
  have hsource : ∀ name ∈ r.source, '\n' ∉ name.toList := by
    rintro name ⟨⟩
    decide
  have hlead : lead r = "[Error ] lexer: ".toList := by decide
  have hpieces : Text.pieces '\n' r.message.toList = ["a".toList, [], "b".toList] := by decide
  have hnarrow : ∀ name ∈ r.source, ∀ c ∈ name.toList, c.utf8Size = 1 := by
    have hall : "lexer".toList.all (·.utf8Size == 1) = true := by decide
    rintro name ⟨⟩
    simpa using hall
  obtain ⟨text, first, rest, hstream, -, hmessage, hlines, hback⟩ :=
    written_lines (w := w) (r := r) rfl rfl hsource
  refine ⟨rfl, rfl, hsource, text, hstream, ?_, ?_⟩
  · rw [hpieces] at hmessage
    cases hmessage
    rw [hlines, hlead]
    decide
  · rw [← hpieces, ← hback.mpr (.inr hnarrow), hlead]
    rfl

/-- After a source of one character with two bytes the second line begins under the second
character of the message. -/
theorem written_lines_wide_source :
    let w : Writer := {}
    let r : Record := { severity := .warn, source := some "é", message := "a\nb" }
    let text := "[Warn  ] é: a\n             b"
    w.colored = false ∧ r.severity.atLeast w.least = true ∧
    (∀ name ∈ r.source, '\n' ∉ name.toList) ∧
    (w.receive r).stream = w.stream.write (text ++ "\n") ∧ lead r = "[Warn  ] é: ".toList ∧
    (Text.pieces '\n' text.toList).map (List.drop (lead r).length) = ["a".toList, " b".toList] ∧
    ["a".toList, " b".toList] ≠ Text.pieces '\n' r.message.toList := by
  intro w r text
  have hsource : ∀ name ∈ r.source, '\n' ∉ name.toList := by
    rintro name ⟨⟩
    decide
  have hbody : line false r = text ++ "\n" := by decide +kernel
  have hstream : (w.receive r).stream = w.stream.write (line false r) := rfl
  refine ⟨rfl, rfl, hsource, ?_, by decide, by decide, by decide⟩
  rw [hstream, hbody]

end Writer
end CurlyScript
