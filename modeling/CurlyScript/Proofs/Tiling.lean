import Mathlib.Data.List.DropRight
import CurlyScript.Lexer.Basic

/-!
# How tokens tile a text

A lexer cuts the text of a file into lexemes and blanks and leaves out nothing but blanks.  The
mark it carries along always agrees with the text behind it, whichever way a lexeme was found, so
every span says truly where its text stands and on which line.

## Main definitions

* `Text.lineHead` — where the last line of a text begins.
* `Span.Covers` — a span is that of some characters of a text.
* `Text.BlankBetween` — two offsets with nothing but blanks between them.
* `GapsBlank` — tokens in their order with nothing but blanks before and between them.
* `Lexer.At` — a lexer has come through a first part of a text.

## Main results

* `Lexer.tokenize_tiles` — the tokens of every text tile it.
-/

namespace CurlyScript

/-! ### Lines -/

/-- The offset just after the last newline of a text, zero if there is none. -/
def Text.lineHead (cs : List Char) : Nat := byteLength (cs.rdropWhile (· != '\n'))

namespace Mark

theorem after_append (m : Mark) (as bs : List Char) :
    m.after (as ++ bs) = (m.after as).after bs := List.foldl_append

/-- The line of a place is one more than the number of newlines before it. -/
theorem line_after_start (cs : List Char) :
    (start.after cs).line = 1 + cs.count '\n' := by
  induction cs using List.reverseRecOn with
  | nil => rfl
  | append_singleton cs c ih =>
    rw [after_append, after_cons, after_nil, List.count_append, List.count_singleton]
    unfold step
    split
    · next hc =>
      simp only [atLineStart, ih, hc, beq_self_eq_true, if_true, Nat.add_assoc]
    · next hc =>
      simp only [ih, beq_iff_eq, if_neg hc, Nat.add_zero]

/-- The line of a place begins after the last newline before it. -/
theorem lineStart_after_start (cs : List Char) :
    (start.after cs).lineStart = Text.lineHead cs := by
  induction cs using List.reverseRecOn with
  | nil => rfl
  | append_singleton cs c ih =>
    rw [after_append, after_cons, after_nil, Text.lineHead, List.rdropWhile_concat]
    unfold step
    split
    · next hc =>
      rw [if_neg (by simp [hc])]
      simp [atLineStart, start, offset_after]
    · next hc =>
      rw [if_pos (by simpa using hc)]
      exact ih

end Mark

/-! ### Spans and gaps -/

/-- Any span is accepted when it is made anew from its own offsets. -/
theorem Span.ofOffsets_self (s : Span) :
    ofOffsets s.file s.line s.lineStart s.start s.stop = .ok s := by
  rw [ofOffsets, dif_pos s.start_le_stop, dif_pos s.lineStart_le_start]

/-- The span is that of the characters `mid` somewhere in a text: its offsets count the bytes
before and up to the end of `mid`, its line and the start of that line are those at which `mid`
begins, and they are accepted as a span. -/
def Span.Covers (s : Span) (file : String) (text mid : List Char) : Prop :=
  ∃ before after, text = before ++ mid ++ after ∧
    ofOffsets file (1 + before.count '\n') (Text.lineHead before) (Text.byteLength before)
      (Text.byteLength (before ++ mid)) = .ok s

/-- Both offsets are between characters of the text, and all that lies between them is blank. -/
def Text.BlankBetween (text : List Char) (start stop : Nat) : Prop :=
  ∃ before gap after, text = before ++ gap ++ after ∧ byteLength before = start ∧
    byteLength (before ++ gap) = stop ∧ ∀ c ∈ gap, isBlank c = true

theorem Text.BlankBetween.le {text : List Char} {start stop : Nat}
    (h : BlankBetween text start stop) : start ≤ stop := by
  obtain ⟨before, gap, after, -, rfl, rfl, -⟩ := h
  rw [byteLength_append]
  exact Nat.le_add_right _ _

/-- There are only blanks between the offset and the first token, and between each token and the
next. -/
def GapsBlank (text : List Char) : Nat → List Token → Prop
  | _, [] => True
  | offset, t :: ts =>
    Text.BlankBetween text offset t.span.start ∧ GapsBlank text t.span.stop ts

theorem GapsBlank.le_start {text : List Char} {offset : Nat} {ts : List Token}
    (h : GapsBlank text offset ts) : ∀ t ∈ ts, offset ≤ t.span.start := by
  induction ts generalizing offset with
  | nil => simp
  | cons t ts ih =>
    obtain ⟨hgap, hrest⟩ := h
    intro u hu
    rcases List.mem_cons.mp hu with rfl | hu
    · exact hgap.le
    · calc offset ≤ t.span.start := hgap.le
        _ ≤ t.span.stop := t.span.start_le_stop
        _ ≤ u.span.start := ih hrest u hu

/-- Tokens with blanks between them stand one after the other. -/
theorem GapsBlank.pairwise {text : List Char} {offset : Nat} {ts : List Token}
    (h : GapsBlank text offset ts) :
    ts.Pairwise fun a b => a.span.stop ≤ b.span.start := by
  induction ts generalizing offset with
  | nil => exact List.Pairwise.nil
  | cons t ts ih => exact List.Pairwise.cons (fun u hu => h.2.le_start u hu) (ih h.2)

/-! ### What a scan takes -/

/-- The kinds of symbols are those of the table. -/
theorem extendSymbol_kind {seen : List Char} {best : Option (List Char × Kind)} {cs : List Char}
    (hbest : ∀ found ∈ best, found.2 ≠ .endOfFile) :
    ∀ found ∈ extendSymbol seen best cs, found.2 ≠ .endOfFile := by
  induction cs generalizing seen best with
  | nil => exact hbest
  | cons c cs ih =>
    simp only [extendSymbol]
    split
    · refine ih ?_
      intro found hfound
      split at hfound
      · next kind hkind =>
        cases hfound
        obtain ⟨entry, hentry, rfl⟩ := Option.map_eq_some_iff.mp hkind
        rcases List.mem_append.mp (List.mem_of_find?_eq_some hentry) with hmem | hmem
        all_goals
          obtain ⟨_, _, rfl⟩ := List.mem_map.mp hmem
          simp
      · exact hbest found hfound
    · exact hbest

/-- No characters are taken for the end of the file. -/
theorem scan_kind_ne {c : Char} {cs : List Char} {kind : Kind} {literal : Option Literal}
    (h : (scan c cs).outcome = .ok (kind, literal)) : kind ≠ .endOfFile := by
  unfold scan at h
  split at h
  · next symbol found hfound =>
    cases h
    exact extendSymbol_kind (by simp) _ hfound
  · split at h
    · unfold scanString at h
      split at h <;> cases h
      exact nofun
    · split at h
      · unfold scanWord at h
        simp only at h
        split at h <;> cases h <;> exact nofun
      · split at h
        · unfold scanNumber at h
          split at h
          · cases h
          · next numeral _ =>
            simp only at h
            cases hvalue : numeral.value <;> rw [hvalue] at h <;> cases h
            exact nofun
        · cases h

/-- Whether a token is what a scan comes to. -/
def Token.Scanned (t : Token) : Prop :=
  ∃ c cs, (scan c cs).outcome = .ok (t.kind, t.literal) ∧
    t.lexeme = String.ofList (scan c cs).taken

theorem Token.Scanned.kind_ne {t : Token} (h : t.Scanned) : t.kind ≠ .endOfFile := by
  obtain ⟨c, cs, houtcome, -⟩ := h
  exact scan_kind_ne houtcome

theorem Token.Scanned.lexeme_ne {t : Token} (h : t.Scanned) : t.lexeme ≠ "" := by
  obtain ⟨c, cs, -, hlexeme⟩ := h
  intro hempty
  exact scan_taken_ne_nil c cs (String.ofList_injective (hlexeme.symm.trans hempty))

/-! ### Lexers on their way -/

/-- What span an event speaks of. -/
def LexerEvent.span? : LexerEvent → Option Span
  | .zeroPower span => some span
  | .scannedNumber _ _ => none
  | .lexed token => some token.span
  | .failed _ span => some span
  | .stopped _ _ => none

namespace Lexer

/-- The lexer has come through `before` and has the rest of the text still to read. -/
structure At (file : String) (text before : List Char) (l : Lexer) : Prop where
  /-- The lexer is in the file. -/
  file_eq : l.file = file
  /-- What is behind and what is ahead make up the text. -/
  text_eq : before ++ l.rest = text
  /-- The mark is where the characters behind lead. -/
  mark_eq : l.mark = Mark.start.after before

variable {file : String} {text before : List Char} {l : Lexer}

theorem at_ofText (file text : String) : (ofText file text).At file text.toList [] :=
  ⟨rfl, rfl, rfl⟩

/-- Going on over characters that are there. -/
theorem At.past (h : l.At file text before) {taken : List Char} (htaken : taken <+: l.rest) :
    (l.past taken).At file text (before ++ taken) where
  file_eq := h.file_eq
  text_eq := by
    have hrest := List.prefix_iff_eq_append.mp htaken
    rw [← h.text_eq, List.append_assoc]
    exact congrArg (before ++ ·) hrest
  mark_eq := by
    rw [Mark.after_append, ← h.mark_eq]
    rfl

theorem At.skipBlanks (h : l.At file text before) :
    l.skipBlanks.At file text (before ++ l.rest.takeWhile Text.isBlank) :=
  h.past (List.takeWhile_prefix _)

/-- The span over characters that are there covers them. -/
theorem At.covers (h : l.At file text before) {taken : List Char} (htaken : taken <+: l.rest) :
    (l.mark.spanOver l.file taken).Covers file text taken := by
  obtain ⟨after, hafter⟩ := htaken
  refine ⟨before, after, ?_, ?_⟩
  · rw [List.append_assoc, hafter, h.text_eq]
  · rw [← Mark.line_after_start, ← Mark.lineStart_after_start, ← h.mark_eq, ← h.file_eq]
    have hoffset : Text.byteLength before = l.mark.offset := by
      rw [h.mark_eq, Mark.offset_after]
      exact (Nat.zero_add _).symm
    rw [Text.byteLength_append, hoffset]
    exact Span.ofOffsets_self (l.mark.spanOver l.file taken)

/-! ### One token -/

theorem deliver_of_error {s : Scan} {cause : LexicalError} (h : s.outcome = .error cause) :
    (l.deliver s).item = some (.error cause) ∧
      (l.deliver s).after = { l.past s.taken with failed := true } := by
  simp only [deliver, h, and_self]

theorem deliver_of_ok {s : Scan} {kind : Kind} {literal : Option Literal}
    (h : s.outcome = .ok (kind, literal)) :
    (l.deliver s).item = some (.token
        { kind, lexeme := String.ofList s.taken, span := l.mark.spanOver l.file s.taken,
          literal }) ∧
      (l.deliver s).after = l.past s.taken := by
  simp only [deliver, h, and_self]

/-- Whatever a scan comes to, the spans that are spoken of cover what was taken. -/
theorem At.events_deliver (h : l.At file text before) {s : Scan} (htaken : s.taken <+: l.rest) :
    ∀ e ∈ (l.deliver s).events, ∀ span ∈ e.span?, span.Covers file text s.taken := by
  have hspan := h.covers htaken
  have hwarning : ∀ e ∈ (if s.zeroPower then
      [LexerEvent.zeroPower (l.mark.spanOver l.file s.taken)] else []),
      ∀ span ∈ e.span?, span.Covers file text s.taken := by
    intro e he
    split at he
    · rw [List.mem_singleton.mp he]
      rintro _ ⟨⟩
      exact hspan
    · simp at he
  unfold deliver
  simp only
  split
  · intro e he
    rcases List.mem_append.mp he with he | he
    · exact hwarning e he
    · rw [List.mem_singleton.mp he]
      rintro _ ⟨⟩
      exact hspan
  · intro e he
    rcases List.mem_append.mp he with he | he
    · rcases List.mem_append.mp he with he | he
      · exact hwarning e he
      · -- a number is spoken of by its text and value alone
        split at he <;> simp only [List.mem_singleton, List.not_mem_nil] at he
        all_goals
          subst he
          exact nofun
    · rw [List.mem_singleton.mp he]
      rintro _ ⟨⟩
      exact hspan

/-! ### Whole runs -/

theorem collect_of_none (h : l.next.item = none) :
    l.collect = ([], l.next.events, l.next.after) := by
  rw [collect]
  split
  · next heq => simp [heq]
  · next heq => simp [heq] at h
  · next heq => simp [heq] at h

theorem collect_of_error {cause : LexicalError} (h : l.next.item = some (.error cause)) :
    l.collect = ([], l.next.events ++ [.stopped l.file cause], l.next.after) := by
  rw [collect]
  split
  · next heq => simp [heq] at h
  · next heq =>
    rw [heq] at h
    cases h
    rw [heq]
  · next heq => simp [heq] at h

theorem collect_of_token {t : Token} (h : l.next.item = some (.token t)) :
    l.collect = (t :: l.next.after.collect.1, l.next.events ++ l.next.after.collect.2.1,
      l.next.after.collect.2.2) := by
  rw [collect]
  split
  · next heq => simp [heq] at h
  · next heq => simp [heq] at h
  · next heq =>
    rw [heq] at h
    cases h
    rw [heq]

/-- A run that makes at most some number of requests, which can be evaluated. -/
def collectWithin : Nat → Lexer → List Token × List LexerEvent × Lexer
  | 0, l => ([], [], l)
  | count + 1, l =>
    match l.next with
    | ⟨none, events, after⟩ => ([], events, after)
    | ⟨some (.error cause), events, after⟩ => ([], events ++ [.stopped l.file cause], after)
    | ⟨some (.token t), events, after⟩ =>
      let (tokens, later, final) := collectWithin count after
      (t :: tokens, events ++ later, final)

/-- A run makes no more requests than there are characters, and one. -/
theorem collect_eq_collectWithin (count : Nat) (h : l.rest.length < count) :
    l.collect = collectWithin count l := by
  induction count generalizing l with
  | zero => exact absurd h (Nat.not_lt_zero _)
  | succ count ih =>
    rcases hnext : l.next with ⟨_ | (t | cause), events, after⟩
    · rw [collect_of_none (by rw [hnext])]
      simp only [collectWithin, hnext]
    · have hitem : l.next.item = some (.token t) := by rw [hnext]
      have hshorter := length_rest_next_lt hitem
      rw [collect_of_token hitem, ih (Nat.lt_of_lt_of_le hshorter (Nat.le_of_lt_succ h))]
      simp only [collectWithin, hnext]
    · rw [collect_of_error (by rw [hnext])]
      simp only [collectWithin, hnext]

theorem tokenize_eq_within (count : Nat) (h : l.rest.length < count) :
    l.tokenize =
      let run := collectWithin count l
      (⟨run.1 ++ [run.2.2.endToken], run.2.2.failed⟩, run.2.1) := by
  rw [← collect_eq_collectWithin count h]
  rfl

/-- What a run through the rest of a text brings: tokens that cover what they say, with blanks
between them, and a lexer that is at the end of the text unless it has failed. -/
structure Tiled (file : String) (text before : List Char)
    (run : List Token × List LexerEvent × Lexer) : Prop where
  /-- Every token is what a scan came to. -/
  scanned : ∀ t ∈ run.1, t.Scanned
  /-- Every token stands for characters of the text. -/
  covers : ∀ t ∈ run.1, t.span.Covers file text t.lexeme.toList
  /-- So does every span that is spoken of. -/
  events : ∀ e ∈ run.2.1, ∀ span ∈ e.span?, ∃ mid, span.Covers file text mid
  /-- Between the tokens there are blanks. -/
  gaps : GapsBlank text (Text.byteLength before) run.1
  /-- The lexer is somewhere in the text. -/
  final : ∃ read, run.2.2.At file text read
  /-- If it has not failed it has come through the text, and after the last token there are
  blanks too. -/
  clean : run.2.2.failed = false → run.2.2.At file text text ∧
    GapsBlank text (Text.byteLength before) (run.1 ++ [run.2.2.endToken])

/-- The blanks that are skipped make a gap. -/
theorem At.blankBetween (h : l.At file text before) :
    Text.BlankBetween text (Text.byteLength before) l.skipBlanks.mark.offset := by
  refine ⟨before, l.rest.takeWhile Text.isBlank, l.skipBlanks.rest, h.skipBlanks.text_eq.symm, rfl,
    ?_, fun c hc => List.mem_takeWhile_imp hc⟩
  rw [h.skipBlanks.mark_eq, Mark.offset_after]
  exact (Nat.zero_add _).symm

theorem tiled_collect (h : l.At file text before) (hfailed : l.failed = false) :
    Tiled file text before l.collect := by
  -- the induction is on the text that is left, which every token makes shorter
  induction hlength : l.rest.length using Nat.strong_induction_on generalizing l before with
  | _ n ih =>
    subst hlength
    have hskip := h.skipBlanks
    have hskipped : l.skipBlanks.failed = false := hfailed
    cases hrest : l.skipBlanks.rest with
    | nil =>
      have hnext := next_of_blank hfailed hrest
      have hend : l.skipBlanks.At file text text := by
        have htext := hskip.text_eq
        rw [hrest, List.append_nil] at htext
        rwa [htext] at hskip
      rw [collect_of_none (by rw [hnext]), hnext]
      exact ⟨by simp, by simp, by simp, trivial, ⟨_, hskip⟩,
        fun _ => ⟨hend, h.blankBetween, trivial⟩⟩
    | cons c cs =>
      have hnext := next_of_cons hfailed hrest
      have htaken : (scan c cs).taken <+: l.skipBlanks.rest := hrest ▸ scan_taken_ahead c cs
      have hevents := hskip.events_deliver htaken
      have hpast := hskip.past htaken
      cases houtcome : (scan c cs).outcome with
      | error cause =>
        obtain ⟨hitem, hafter⟩ := deliver_of_error (l := l.skipBlanks) houtcome
        rw [← hnext] at hitem hafter hevents
        rw [collect_of_error hitem, hafter]
        refine ⟨by simp, by simp, ?_, trivial,
          ⟨_, hpast.file_eq, hpast.text_eq, hpast.mark_eq⟩, nofun⟩
        intro e he span hspan
        rcases List.mem_append.mp he with he | he
        · exact ⟨_, hevents e he span hspan⟩
        · rw [List.mem_singleton.mp he] at hspan
          cases hspan
      | ok found =>
        obtain ⟨hitem, hafter⟩ := deliver_of_ok (l := l.skipBlanks) houtcome
        have hshorter := length_rest_next_lt (l := l) (hnext ▸ hitem)
        rw [← hnext] at hitem hafter hevents
        rw [collect_of_token hitem, hafter]
        rw [hafter] at hshorter
        have hmore := ih _ hshorter hpast hskipped rfl
        -- the next token starts where the lexer is past this one
        have hstop :
            Text.byteLength (before ++ l.rest.takeWhile Text.isBlank ++ (scan c cs).taken) =
              l.skipBlanks.mark.offset + Text.byteLength (scan c cs).taken := by
          rw [Text.byteLength_append, hskip.mark_eq, Mark.offset_after]
          exact congrArg (· + _) (Nat.zero_add _).symm
        obtain ⟨hscanned, hcovers, hlater, hgaps, hfinal, hclean⟩ := hmore
        rw [hstop] at hgaps hclean
        refine ⟨?_, ?_, ?_, ⟨h.blankBetween, hgaps⟩, hfinal, fun hfine =>
          ⟨(hclean hfine).1, h.blankBetween, (hclean hfine).2⟩⟩
        · exact List.forall_mem_cons.mpr ⟨⟨c, cs, houtcome, rfl⟩, hscanned⟩
        · exact List.forall_mem_cons.mpr ⟨by simpa using hskip.covers htaken, hcovers⟩
        · intro e he span hspan
          rcases List.mem_append.mp he with he | he
          · exact ⟨_, hevents e he span hspan⟩
          · exact hlater e he span hspan

/-- **The tokens of every text tile it.**

The last token is the end of the file, and no other is.  Every other token has a text, its span
covers that text in the file, and so do the empty span of the end and every span that is spoken of
on the way.  The spans come one after the other, with nothing but blanks before the first and
between two of them.  If there was no error, there are only blanks after the last one as well, and
the end is at the end of the text. -/
theorem tokenize_tiles (file text : String) :
    ∃ body stop, (ofText file text).tokenize.1.tokens = body ++ [stop] ∧
      stop.kind = .endOfFile ∧ stop.span.Covers file text.toList [] ∧
      (∀ t ∈ body, t.kind ≠ .endOfFile ∧ t.lexeme ≠ "" ∧
        t.span.Covers file text.toList t.lexeme.toList) ∧
      (∀ e ∈ (ofText file text).tokenize.2, ∀ span ∈ e.span?,
        ∃ mid, span.Covers file text.toList mid) ∧
      (body.Pairwise fun a b => a.span.stop ≤ b.span.start) ∧
      GapsBlank text.toList 0 body ∧
      ((ofText file text).tokenize.1.hadError = false →
        GapsBlank text.toList 0 (body ++ [stop]) ∧
        stop.span.start = Text.byteLength text.toList ∧
        stop.span.stop = Text.byteLength text.toList) := by
  have htiled := tiled_collect (at_ofText file text) rfl
  obtain ⟨read, hread⟩ := htiled.final
  refine ⟨_, _, rfl, rfl, hread.covers List.nil_prefix, ?_, htiled.events, htiled.gaps.pairwise,
    htiled.gaps, ?_⟩
  · intro t ht
    have hscanned := htiled.scanned t ht
    exact ⟨hscanned.kind_ne, hscanned.lexeme_ne, htiled.covers t ht⟩
  intro hclean
  obtain ⟨hend, hgaps⟩ := htiled.clean hclean
  have hoffset : (ofText file text).collect.2.2.mark.offset = Text.byteLength text.toList := by
    rw [hend.mark_eq, Mark.offset_after]
    exact Nat.zero_add _
  exact ⟨hgaps, hoffset, hoffset⟩

end Lexer
end CurlyScript
