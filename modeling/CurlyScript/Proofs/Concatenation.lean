import CurlyScript.Proofs.Lookahead
import CurlyScript.Proofs.Reports

/-!
# Lexing one text after the other

Nothing a lexer does depends on the place where it is, except for the places it speaks of.  And
no token reaches across a blank.  So a text, a blank and another text have the tokens of the first
and those of the second, the latter at later places.

## Main definitions

* `Mark.moved`, `Span.moved`, `Token.moved`, `LexerEvent.moved` — places in a text, as they are
  when the text stands behind another one.
* `Lexer.moved` — a lexer on the same text at a later place.

## Main results

* `Lexer.collect_moved` — a lexer at a later place does the same at later places.
* `Lexer.collect_before_blank` — a lexer that comes through a text goes on after a blank as if it
  began there.
* `Frontend.lex_append_blank` — lexing goes through blanks piece by piece.
-/

namespace CurlyScript

/-! ### Later places -/

/-- A place of a text that begins at `m`, as it is when counted from where `m` is counted from. -/
def Mark.moved (p m : Mark) : Mark where
  line := m.line + (p.line - 1)
  lineStart := if p.line = 1 then m.lineStart else m.offset + p.lineStart
  offset := m.offset + p.offset
  lineStart_le_offset := by
    have hm := m.lineStart_le_offset
    have hp := p.lineStart_le_offset
    split <;> omega

/-- A span of a text that begins at `m`. -/
def Span.moved (s : Span) (m : Mark) : Span where
  file := s.file
  line := m.line + (s.line - 1)
  lineStart := if s.line = 1 then m.lineStart else m.offset + s.lineStart
  start := m.offset + s.start
  stop := m.offset + s.stop
  lineStart_le_start := by
    have hm := m.lineStart_le_offset
    have hs := s.lineStart_le_start
    split <;> omega
  start_le_stop := Nat.add_le_add_left s.start_le_stop _

/-- A token of a text that begins at `m`. -/
def Token.moved (t : Token) (m : Mark) : Token := { t with span := t.span.moved m }

/-- What happens in a text that begins at `m`. -/
def LexerEvent.moved (m : Mark) : LexerEvent → LexerEvent
  | .zeroPower span => .zeroPower (span.moved m)
  | .scannedNumber lexeme value => .scannedNumber lexeme value
  | .lexed token => .lexed (token.moved m)
  | .failed cause span => .failed cause (span.moved m)
  | .stopped file cause => .stopped file cause

/-- What is handed out in a text that begins at `m`. -/
def Item.moved (m : Mark) : Item → Item
  | .token t => .token (t.moved m)
  | .error cause => .error cause

namespace Mark

theorem line_le_step (p : Mark) (c : Char) : p.line ≤ (p.step c).line := by
  unfold step
  split
  · exact Nat.le_succ _
  · exact Nat.le_refl _

theorem line_le_after (p : Mark) (cs : List Char) : p.line ≤ (p.after cs).line := by
  induction cs generalizing p with
  | nil => exact Nat.le_refl _
  | cons c cs ih => exact Nat.le_trans (p.line_le_step c) (ih _)

/-- Going on and moving commute, as lines count from one. -/
theorem step_moved {p : Mark} (hp : 1 ≤ p.line) (m : Mark) (c : Char) :
    (p.step c).moved m = (p.moved m).step c := by
  unfold step
  split
  · have hline : p.line + 1 ≠ 1 := by omega
    simp only [moved, atLineStart, mk.injEq]
    refine ⟨by omega, (if_neg hline).trans (Nat.add_assoc ..).symm, by omega⟩
  · simp only [moved, mk.injEq, true_and]
    omega

theorem after_moved {p : Mark} (hp : 1 ≤ p.line) (m : Mark) (cs : List Char) :
    (p.after cs).moved m = (p.moved m).after cs := by
  induction cs generalizing p with
  | nil => rfl
  | cons c cs ih =>
    rw [after_cons, after_cons, ih (Nat.le_trans hp (p.line_le_step c)), step_moved hp]

theorem spanOver_moved (p m : Mark) (file : String) (text : List Char) :
    (p.moved m).spanOver file text = (p.spanOver file text).moved m := by
  simp only [spanOver, moved, Span.moved, Span.mk.injEq, Nat.add_assoc, true_and, and_true]
  rfl

end Mark

/-! ### Lexers at later places -/

namespace Lexer

variable {l : Lexer} {m : Mark}

/-- A lexer on the same text, which begins at `m`. -/
def moved (l : Lexer) (m : Mark) : Lexer := { l with mark := l.mark.moved m }

theorem past_moved (hline : 1 ≤ l.mark.line) (taken : List Char) :
    (l.moved m).past taken = (l.past taken).moved m := by
  simp only [past, moved, Mark.after_moved hline]

theorem deliver_moved (hline : 1 ≤ l.mark.line) (s : Scan) :
    (l.moved m).deliver s =
      { item := (l.deliver s).item.map (Item.moved m)
        events := (l.deliver s).events.map (LexerEvent.moved m)
        after := (l.deliver s).after.moved m } := by
  have hspan : (l.moved m).mark.spanOver l.file s.taken =
      (l.mark.spanOver l.file s.taken).moved m :=
    Mark.spanOver_moved ..
  have hwarnings : ∀ span : Span,
      (if s.zeroPower then [LexerEvent.zeroPower span] else []).map (LexerEvent.moved m) =
        if s.zeroPower then [LexerEvent.zeroPower (span.moved m)] else [] := by
    intro span
    split <;> rfl
  unfold deliver
  simp only
  rcases s.outcome with cause | ⟨kind, literal⟩
  · simp only [past_moved hline, List.map_append, hwarnings]
    rw [show (l.moved m).file = l.file from rfl, hspan]
    rfl
  · simp only [past_moved hline, List.map_append, hwarnings]
    rw [show (l.moved m).file = l.file from rfl, hspan]
    -- whether there is a warning, and whether the token is a number
    split <;> split <;> rfl

theorem next_moved (hline : 1 ≤ l.mark.line) :
    (l.moved m).next =
      { item := l.next.item.map (Item.moved m)
        events := l.next.events.map (LexerEvent.moved m)
        after := l.next.after.moved m } := by
  have hskip : (l.moved m).skipBlanks = l.skipBlanks.moved m := past_moved hline _
  by_cases hfailed : l.failed = true
  · have hmoved : (l.moved m).failed = true := hfailed
    simp only [next, hfailed, hmoved, if_true]
    rfl
  · rw [Bool.not_eq_true] at hfailed
    have hmoved : (l.moved m).failed = false := hfailed
    rcases hrest : l.skipBlanks.rest with _ | ⟨c, cs⟩
    · rw [next_of_blank hfailed hrest, next_of_blank hmoved (by rw [hskip]; exact hrest), hskip]
      rfl
    · rw [next_of_cons hfailed hrest, next_of_cons hmoved (by rw [hskip]; exact hrest), hskip]
      exact deliver_moved (Nat.le_trans hline (Mark.line_le_after ..)) _

theorem line_le_next (hfailed : l.failed = false) : l.mark.line ≤ l.next.after.mark.line := by
  obtain ⟨taken, -, hmark, -⟩ := exists_taken_next hfailed
  rw [hmark]
  exact Mark.line_le_after ..

/-- A lexer at a later place does the same at later places. -/
theorem collect_moved (hfailed : l.failed = false) (hline : 1 ≤ l.mark.line) :
    (l.moved m).collect =
      (l.collect.1.map (·.moved m), l.collect.2.1.map (LexerEvent.moved m),
        l.collect.2.2.moved m) := by
  -- the induction is on the text that is left, as for every run of a lexer
  induction hlength : l.rest.length using Nat.strong_induction_on generalizing l with
  | _ length ih =>
    have hnext := next_moved (m := m) hline
    rcases hitem : l.next.item with _ | (t | cause)
    · have hmoved : (l.moved m).next.item = none := by rw [hnext, hitem]; rfl
      rw [collect_of_none hitem, collect_of_none hmoved, hnext]
      rfl
    · have hmoved : (l.moved m).next.item = some (.token (t.moved m)) := by rw [hnext, hitem]; rfl
      have hshorter := length_rest_next_lt hitem
      have hafter : l.next.after.failed = false := by rw [failed_next hfailed, hitem]
      have hmore := ih _ (by omega) hafter (Nat.le_trans hline (line_le_next hfailed)) rfl
      rw [collect_of_token hitem, collect_of_token hmoved, hnext, hmore, List.map_append]
      rfl
    · have hmoved : (l.moved m).next.item = some (.error cause) := by rw [hnext, hitem]; rfl
      rw [collect_of_error hitem, collect_of_error hmoved, hnext, List.map_append]
      rfl

/-! ### Going on after a blank -/

/-- A lexer further on, after `gap`, with `y` ahead. -/
def beyond (l : Lexer) (gap y : List Char) : Lexer :=
  { l with mark := l.mark.after gap, rest := y }

/-- The end of a text is the same place, seen from before and from after its first token. -/
theorem beyond_next {t : Token} (hfailed : l.failed = false) (hitem : l.next.item = some (.token t))
    (z y : List Char) :
    l.next.after.beyond (l.next.after.rest ++ z) y = l.beyond (l.rest ++ z) y := by
  obtain ⟨taken, hrest, hmark, hfile⟩ := exists_taken_next hfailed
  have hafter : l.next.after.failed = l.failed := by rw [failed_next hfailed, hitem, hfailed]
  rw [beyond, beyond, hrest, hmark, hfile, hafter, ← Mark.after_append, List.append_assoc]

/-- A run is determined by what the first request brings, and by the file. -/
theorem collect_eq_of_next {l l' : Lexer} (hnext : l.next = l'.next) (hfile : l.file = l'.file) :
    l.collect = l'.collect := by
  rcases hitem : l'.next.item with _ | (t | cause)
  · rw [collect_of_none (hnext ▸ hitem), collect_of_none hitem, hnext]
  · rw [collect_of_token (hnext ▸ hitem), collect_of_token hitem, hnext]
  · rw [collect_of_error (hnext ▸ hitem), collect_of_error hitem, hnext, hfile]

/-- Blanks ahead are as good as blanks behind. -/
theorem collect_before_gap {gap : List Char} (hfailed : l.failed = false)
    (hgap : ∀ c ∈ gap, Text.isBlank c = true) (y : List Char) :
    (l.before (gap ++ y)).collect = (l.beyond gap y).collect := by
  have hskip : (l.before (gap ++ y)).skipBlanks = (l.beyond gap y).skipBlanks := by
    have hbeyond := skipBlanks_before { l with mark := l.mark.after gap } y
    rw [skipBlanks_before, List.takeWhile_append_of_pos hgap, List.dropWhile_append_of_pos hgap,
      Mark.after_append]
    exact hbeyond.symm
  refine collect_eq_of_next ?_ rfl
  have hahead : (l.before (gap ++ y)).failed = false := hfailed
  have hbehind : (l.beyond gap y).failed = false := hfailed
  rcases hrest : (l.beyond gap y).skipBlanks.rest with _ | ⟨c, cs⟩
  · rw [next_of_blank hbehind hrest, next_of_blank hahead (by rw [hskip, hrest]), hskip]
  · rw [next_of_cons hbehind hrest, next_of_cons hahead (by rw [hskip, hrest]), hskip]

/-- A lexer that comes through a text without an error goes on, after a blank, as one that begins
there. -/
theorem collect_before_blank {w : Char} {x : List Char} (hfailed : l.failed = false)
    (hw : Text.isBlank w = true) (hclean : (l.before x).collect.2.2.failed = false)
    (y : List Char) :
    (l.before (x ++ w :: y)).collect =
      ((l.before x).collect.1 ++ (l.beyond (x ++ [w]) y).collect.1,
        (l.before x).collect.2.1 ++ (l.beyond (x ++ [w]) y).collect.2.1,
        (l.beyond (x ++ [w]) y).collect.2.2) := by
  -- the induction is on the first text, which every token makes shorter
  induction hlength : x.length using Nat.strong_induction_on generalizing l x with
  | _ length ih =>
    have hfailed' : (l.before x).failed = false := hfailed
    rcases hx : x.dropWhile Text.isBlank with _ | ⟨c, cs⟩
    · -- only blanks are left of it
      have hgap : ∀ c ∈ x ++ [w], Text.isBlank c = true := by
        intro c hc
        rcases List.mem_append.mp hc with hc | hc
        · exact List.dropWhile_eq_nil_iff.mp hx c hc
        · rw [List.mem_singleton.mp hc]
          exact hw
      have hnext := next_of_blank hfailed' (by rw [skipBlanks_before, hx])
      rw [List.append_cons, collect_before_gap hfailed hgap y,
        collect_of_none (l := l.before x) (by rw [hnext]), hnext]
      rfl
    · have hrest : (l.before x).skipBlanks.rest = c :: cs := by rw [skipBlanks_before, hx]
      rcases houtcome : (scan c cs).outcome with cause | found
      · -- an error would have been met in the first text already
        obtain ⟨hitem, hafter⟩ := deliver_of_error (l := (l.before x).skipBlanks) houtcome
        rw [← next_of_cons hfailed' hrest] at hitem hafter
        rw [collect_of_error hitem, hafter] at hclean
        cases hclean
      · have hitem := (deliver_of_ok (l := (l.before x).skipBlanks) houtcome).1
        rw [← next_of_cons hfailed' hrest] at hitem
        have hnext := next_before_append hfailed hx (scan_before_blank houtcome hw y)
        have hitem' := (congrArg LexerStep.item hnext).trans hitem
        have hafter : (l.before x).next.after.failed = false := by rw [failed_next hfailed', hitem]
        have hshorter := length_rest_next_lt hitem
        rw [collect_of_token hitem] at hclean
        have hmore := ih _ (hlength ▸ hshorter) hafter hclean rfl
        rw [beyond_next hfailed' hitem] at hmore
        rw [collect_of_token hitem, collect_of_token hitem', hnext, hmore]
        simp only [List.cons_append, List.append_assoc]
        rfl

/-! ### Whole texts -/

@[simp] theorem withoutEnd_tokenize (l : Lexer) : l.tokenize.1.withoutEnd = l.collect.1 := by
  have hlast : l.tokenize.1.tokens = l.collect.1 ++ [l.collect.2.2.endToken] := rfl
  rw [TokenStream.withoutEnd, hlast, List.getLast?_append, List.dropLast_concat]
  rfl

/-- A lexer on a text, a blank and another text brings what lexers on the two texts bring, the
second moved to where it stands. -/
theorem collect_append_blank {file a b : String} {w : Char} (hw : Text.isBlank w = true)
    (ha : (ofText file a).collect.2.2.failed = false) :
    (ofText file (a ++ String.singleton w ++ b)).collect =
      let m := Mark.start.after (a.toList ++ [w])
      ((ofText file a).collect.1 ++ (ofText file b).collect.1.map (·.moved m),
        (ofText file a).collect.2.1 ++ (ofText file b).collect.2.1.map (LexerEvent.moved m),
        (ofText file b).collect.2.2.moved m) := by
  have hwhole : ofText file (a ++ String.singleton w ++ b) =
      (ofText file a).before (a.toList ++ w :: b.toList) := by
    simp [ofText, before, String.toList_append]
  have hlater : (ofText file a).beyond (a.toList ++ [w]) b.toList =
      (ofText file b).moved (Mark.start.after (a.toList ++ [w])) := rfl
  rw [hwhole, collect_before_blank (l := ofText file a) (x := a.toList) rfl hw ha, hlater,
    collect_moved (l := ofText file b) rfl (Nat.le_refl 1)]
  rfl

end Lexer

/-- The cause of an error. -/
def LexerEvent.failure? : LexerEvent → Option LexicalError
  | .failed cause _ => some cause
  | _ => none

theorem failures_moved (events : List LexerEvent) (m : Mark) :
    (events.map (LexerEvent.moved m)).filterMap LexerEvent.failure? =
      events.filterMap LexerEvent.failure? := by
  rw [List.filterMap_map]
  refine List.filterMap_congr fun e _ => ?_
  cases e <;> rfl

/-- The severities of what is found do not depend on the place. -/
theorem severities_moved (events : List LexerEvent) (m : Mark) :
    (findings ((events.map (LexerEvent.moved m)).map LexerEvent.remark)).map Finding.severity =
      (findings (events.map LexerEvent.remark)).map Finding.severity := by
  simp only [findings, List.filterMap_map, List.map_filterMap]
  refine List.filterMap_congr fun e _ => ?_
  cases e <;> rfl

/-- A lexer that has not failed has met no error. -/
theorem Lexer.failures_eq_nil {l : Lexer} (hfailed : l.failed = false)
    (hclean : l.collect.2.2.failed = false) :
    l.collect.2.1.filterMap LexerEvent.failure? = [] := by
  have hlength := length_failures_collect hfailed
  rw [hclean, Bool.toNat_false, List.length_eq_zero_iff, List.filter_eq_nil_iff] at hlength
  rw [List.filterMap_eq_nil_iff]
  intro e he
  have hno := hlength e he
  cases e with
  | failed cause span => exact absurd rfl hno
  | _ => rfl

/-- The severities on record after a text is lexed are those of what is found in it. -/
theorem Reporter.severities_lex (r : Reporter) (hlogger : r.logger = .recording)
    (file text : String) :
    (r.lex file text).2.recorded.map Record.severity =
      (findings (Frontend.lex file text).2).map Finding.severity := by
  have hrecorded := recorded_logFindings (r.register file text) hlogger (Frontend.lex file text).2
  have hlex : (r.lex file text).2 =
      (r.register file text).logFindings (Frontend.lex file text).2 := rfl
  rw [hlex, hrecorded, List.map_map]
  rfl

namespace Frontend

/-- **Lexing goes through blanks piece by piece.**

Let a text without lexical errors be followed by a blank and any other text.  Then the tokens are
those of the first text where they were, and after them those of the second, moved by the bytes of
the first text and the blank.  There is an error if the second text has one, and it is that error.
All that happens is what happens in the first text and then, at moved places, what happens in the
second, so that the severities on record are those of the first and then those of the second. -/
theorem lex_append_blank {file a b : String} {w : Char} (hw : Text.isBlank w = true)
    (ha : (lex file a).1.hadError = false) :
    let whole := a ++ String.singleton w ++ b
    let m := Mark.start.after (a.toList ++ [w])
    m.offset = Text.byteLength (a.toList ++ [w]) ∧
    (lex file whole).1.withoutEnd =
      (lex file a).1.withoutEnd ++ (lex file b).1.withoutEnd.map (·.moved m) ∧
    (lex file whole).1.hadError = (lex file b).1.hadError ∧
    (Lexer.ofText file whole).tokenize.2 = (Lexer.ofText file a).tokenize.2 ++
      (Lexer.ofText file b).tokenize.2.map (LexerEvent.moved m) ∧
    (Lexer.ofText file whole).tokenize.2.filterMap LexerEvent.failure? =
      (Lexer.ofText file b).tokenize.2.filterMap LexerEvent.failure? ∧
    ∀ r : Reporter, r.logger = .recording →
      (r.lex file whole).2.recorded.map Record.severity =
        (r.lex file a).2.recorded.map Record.severity ++
          (r.lex file b).2.recorded.map Record.severity := by
  intro whole m
  have hcollect := Lexer.collect_append_blank (b := b) hw ha
  have hevents : (Lexer.ofText file whole).tokenize.2 = (Lexer.ofText file a).tokenize.2 ++
      (Lexer.ofText file b).tokenize.2.map (LexerEvent.moved m) := congrArg (·.2.1) hcollect
  refine ⟨?_, ?_, congrArg (·.2.2.failed) hcollect, hevents, ?_, ?_⟩
  · rw [Mark.offset_after]
    exact Nat.zero_add _
  · have htokens := congrArg Prod.fst hcollect
    have hwithout (text : String) :
        (lex file text).1.withoutEnd = (Lexer.ofText file text).collect.1 :=
      Lexer.withoutEnd_tokenize _
    rw [hwithout, hwithout, hwithout]
    exact htokens
  · have hnone : (Lexer.ofText file a).tokenize.2.filterMap LexerEvent.failure? = [] :=
      Lexer.failures_eq_nil rfl ha
    rw [hevents, List.filterMap_append, hnone, failures_moved, List.nil_append]
  · intro r hlogger
    have hremarks (text : String) :
        (lex file text).2 = (Lexer.ofText file text).tokenize.2.map LexerEvent.remark := rfl
    rw [r.severities_lex hlogger, r.severities_lex hlogger, r.severities_lex hlogger, hremarks,
      hremarks, hremarks, hevents, List.map_append, findings_append, List.map_append,
      severities_moved]

/-- A number with an idle exponent, a newline, and a text that ends in an error: the tokens of the
second line are four bytes further on, and the severities of both lines are on record. -/
theorem lex_append_blank_newline :
    (lex "a" "1e0").1.hadError = false ∧
    (lex "a" "1e0\nx 2e0 #").1.withoutEnd.map (fun t => (t.lexeme, t.span.line, t.span.start)) =
      [("1e0", 1, 0), ("x", 2, 4), ("2e0", 2, 6)] ∧
    (lex "a" "1e0\nx 2e0 #").1.hadError = true ∧
    (Lexer.ofText "a" "1e0\nx 2e0 #").tokenize.2.filterMap LexerEvent.failure? =
      [.unexpectedChar '#'] ∧
    (({ logger := .recording } : Reporter).lex "a" "1e0\nx 2e0 #").2.recorded.map Record.severity =
      [.warn, .warn, .error] := by
  have hfirst := Lexer.tokenize_eq_within 9 (l := .ofText "a" "1e0") (by decide)
  have hsecond := Lexer.tokenize_eq_within 9 (l := .ofText "a" "x 2e0 #") (by decide)
  have hclean : (lex "a" "1e0").1.hadError = false := by
    rw [lex, hfirst]
    decide +kernel
  obtain ⟨-, htokens, herror, -, hfailure, hrecords⟩ :=
    lex_append_blank (b := "x 2e0 #") (w := '\n') rfl hclean
  have hwhole : "1e0" ++ String.singleton '\n' ++ "x 2e0 #" = "1e0\nx 2e0 #" := by decide
  rw [hwhole] at htokens herror hfailure hrecords
  refine ⟨hclean, ?_, ?_, ?_, ?_⟩
  · rw [htokens]
    simp only [lex, hfirst, hsecond]
    decide +kernel
  · rw [herror]
    simp only [lex, hsecond]
    decide +kernel
  · rw [hfailure]
    rw [hsecond]
    decide +kernel
  · rw [hrecords _ rfl, Reporter.severities_lex _ rfl, Reporter.severities_lex _ rfl]
    simp only [lex, hfirst, hsecond]
    decide +kernel

end Frontend
end CurlyScript
