import CurlyScript.Proofs.Concatenation
import CurlyScript.Proofs.NormalForm

/-!
# What a lexical error costs

A lexer that fails has found all tokens that it would have found if the text had been cut off where
the error begins.  The reader does not look at where its tokens end or whether it is to be quiet,
but for what it reports.  So a lexical error costs what follows it, and nothing before it: the
statements are those of the text up to the error.

The reports of the two runs differ.  In the whole text the lexical error is reported, after a
warning about its own characters if they are a number with an idle exponent, and the reader is
quiet.  In the text that is cut off the reader reports what it misses.  What is reported before is
the same, and each run shows it in its own text.

## Main definitions

* `Lexer.FailsAfter` — a lexer goes through some characters and fails right after them.
* `Frontend.FailsAt` — a text has a lexical error behind its first part.
* `Frontend.ReportsApart` — what the reports of the two runs have in common, and what not.

## Main results

* `Lexer.exists_failsAfter` — a lexer that fails goes through the text before the error as if
  nothing came after it.
* `Frontend.parse_cut` — the statements of a text with a lexical error are those of the text before
  it.
-/

namespace CurlyScript

/-! ### The text before the error -/

namespace Lexer

/-- The lexer goes through `x` without an error and fails right after it, at characters that the
span covers. -/
structure FailsAfter (l : Lexer) (x : List Char) (cause : LexicalError) (span : Span) : Prop where
  /-- The text begins with `x`. -/
  ahead : x <+: l.rest
  /-- The error begins where `x` ends. -/
  start_eq : span.start = (l.mark.after x).offset
  /-- On `x` alone there is no error. -/
  clean : (l.before x).collect.2.2.failed = false
  /-- All tokens are in `x`. -/
  tokens_eq : l.collect.1 = (l.before x).collect.1
  /-- What happens beyond `x` is about the characters of the error alone. -/
  exists_events : ∃ warnings, (warnings = [] ∨ warnings = [.zeroPower span]) ∧
    l.collect.2.1 =
      (l.before x).collect.2.1 ++ (warnings ++ [.failed cause span, .stopped l.file cause])

theorem events_of_error {l : Lexer} {s : Scan} {cause : LexicalError}
    (h : s.outcome = .error cause) :
    ∃ warnings, (warnings = [] ∨ warnings = [.zeroPower (l.mark.spanOver l.file s.taken)]) ∧
      (l.deliver s).events = warnings ++ [.failed cause (l.mark.spanOver l.file s.taken)] := by
  simp only [deliver, h]
  refine ⟨_, ?_, rfl⟩
  split
  · exact .inr rfl
  · exact .inl rfl

/-- A request that comes to a token takes blanks and then the lexeme, and leaves the rest. -/
theorem exists_lexeme {l : Lexer} {t : Token} (hfailed : l.failed = false)
    (hitem : l.next.item = some (.token t)) :
    ∃ c more, Text.isBlank c = false ∧
      l.rest = l.rest.takeWhile Text.isBlank ++ c :: more ++ l.next.after.rest ∧
      (scan c (more ++ l.next.after.rest)).taken = c :: more ∧
      ∃ found, (scan c (more ++ l.next.after.rest)).outcome = .ok found := by
  rcases hskip : l.skipBlanks.rest with _ | ⟨c, cs⟩
  · rw [next_of_blank hfailed hskip] at hitem
    cases hitem
  have hnext := next_of_cons hfailed hskip
  rcases houtcome : (scan c cs).outcome with cause | found
  · rw [hnext, (deliver_of_error houtcome).1] at hitem
    cases hitem
  have hafter : l.next.after.rest = (c :: cs).drop (scan c cs).taken.length := by
    rw [hnext, rest_deliver, past, hskip]
  have hlexeme : (scan c cs).taken ++ l.next.after.rest = c :: cs := by
    rw [hafter]
    exact List.prefix_iff_eq_append.mp (scan_taken_ahead c cs)
  obtain ⟨hparts, hc⟩ := rest_of_skipBlanks hskip
  rcases htaken : (scan c cs).taken with _ | ⟨d, more⟩
  · exact absurd htaken (scan_taken_ne_nil c cs)
  · rw [htaken, List.cons_append] at hlexeme
    obtain ⟨rfl, hcs⟩ := List.cons.inj hlexeme
    refine ⟨d, more, hc, ?_, by rw [hcs, htaken], found, by rw [hcs, houtcome]⟩
    rw [List.append_assoc, List.cons_append, hcs]
    exact hparts

/-- A request that comes to a token comes to the same token when the text is cut off anywhere
behind it. -/
theorem next_cut {l : Lexer} {x : List Char} {t : Token} (hfailed : l.failed = false)
    (hitem : l.next.item = some (.token t)) (hx : x <+: l.next.after.rest) :
    ∃ taken, taken ++ x <+: l.rest ∧ l.next.after.mark = l.mark.after taken ∧
      l.next.after.file = l.file ∧
      (l.before (taken ++ x)).next =
        { item := l.next.item, events := l.next.events, after := l.next.after.before x } := by
  obtain ⟨taken, htaken, hmark, hfile⟩ := exists_taken_next hfailed
  obtain ⟨c, more, hc, hparts, hlexeme, found, houtcome⟩ := exists_lexeme hfailed hitem
  have hblanks : taken = l.rest.takeWhile Text.isBlank ++ c :: more :=
    List.append_cancel_right (htaken.symm.trans hparts)
  obtain ⟨y, hy⟩ := hx
  rw [← hy, ← List.append_assoc] at hlexeme houtcome
  have hrest : l.rest = taken ++ x ++ y := by rw [htaken, ← hy, List.append_assoc]
  refine ⟨taken, ⟨y, hrest.symm⟩, hmark, hfile, ?_⟩
  have hdrop : (taken ++ x).dropWhile Text.isBlank = c :: (more ++ x) := by
    rw [hblanks, List.append_assoc,
      List.dropWhile_append_of_pos fun c hc => List.mem_takeWhile_imp hc, List.cons_append,
      List.dropWhile_cons_of_neg (by simp [hc])]
  have hcut : scan c (more ++ x) = scan c (more ++ x ++ y) :=
    scan_cut houtcome (hlexeme ▸ ⟨x, rfl⟩)
  -- what holds before the whole text is read off before the cut one
  have hlonger := next_before_append (l := l) (y := y) hfailed hdrop hcut.symm
  have hself : l.before (taken ++ x ++ y) = l := by rw [← hrest]; rfl
  rw [hself] at hlonger
  have hleft : (l.before (taken ++ x)).next.after.rest = x := by
    rw [hlonger] at hy
    exact (List.append_cancel_right hy).symm
  rw [hlonger]
  generalize (l.before (taken ++ x)).next = step at hleft
  subst hleft
  rfl

/-- A lexer that fails goes through the text before the error as if nothing came after it. -/
theorem exists_failsAfter {l : Lexer} (hfailed : l.failed = false)
    (h : l.collect.2.2.failed = true) : ∃ x cause span, l.FailsAfter x cause span := by
  induction hlength : l.rest.length using Nat.strong_induction_on generalizing l with
  | _ length ih =>
    rcases hrest : l.skipBlanks.rest with _ | ⟨c, cs⟩
    · -- at the end of the text there is nothing to fail at
      have hnext := next_of_blank hfailed hrest
      rw [collect_of_none (by rw [hnext]), hnext] at h
      rw [show l.skipBlanks.failed = l.failed from rfl, hfailed] at h
      cases h
    · have hnext := next_of_cons hfailed hrest
      rcases houtcome : (scan c cs).outcome with cause | found
      · -- the error is next, and only blanks are before it
        let gap := l.rest.takeWhile Text.isBlank
        have hgap : gap.dropWhile Text.isBlank = [] :=
          List.dropWhile_eq_nil_iff.mpr fun c hc => List.mem_takeWhile_imp hc
        have hblank := next_of_blank (l := l.before gap) hfailed (by rw [skipBlanks_before, hgap])
        have hcollect := collect_of_none (l := l.before gap) (by rw [hblank])
        rw [hblank] at hcollect
        obtain ⟨hitem, -⟩ := deliver_of_error (l := l.skipBlanks) houtcome
        obtain ⟨warnings, hwarnings, hevents⟩ := events_of_error (l := l.skipBlanks) houtcome
        rw [← hnext] at hitem hevents
        refine ⟨gap, cause, _, List.takeWhile_prefix _, rfl, ?_, ?_, warnings, hwarnings, ?_⟩
        · rw [hcollect]
          exact hfailed
        · rw [hcollect, collect_of_error hitem]
        · rw [hcollect, collect_of_error hitem, hevents, List.nil_append, List.append_assoc]
          rfl
      · -- a token is next, and it stays the same when the text is cut off at the error
        have hitem := (deliver_of_ok (l := l.skipBlanks) houtcome).1
        rw [← hnext] at hitem
        have hafter : l.next.after.failed = false := by rw [failed_next hfailed, hitem]
        have hshorter := length_rest_next_lt hitem
        rw [collect_of_token hitem] at h
        obtain ⟨x, cause, span, hmore⟩ := ih _ (by omega) hafter h rfl
        obtain ⟨taken, hahead, hmark, hfile, hcut⟩ := next_cut hfailed hitem hmore.ahead
        have hitem' : (l.before (taken ++ x)).next.item = _ :=
          (congrArg LexerStep.item hcut).trans hitem
        obtain ⟨warnings, hwarnings, hevents⟩ := hmore.exists_events
        refine ⟨taken ++ x, cause, span, hahead, ?_, ?_, ?_, warnings, hwarnings, ?_⟩
        · rw [hmore.start_eq, hmark, Mark.after_append]
        · rw [collect_of_token hitem', hcut]
          exact hmore.clean
        · rw [collect_of_token hitem, collect_of_token hitem', hcut, hmore.tokens_eq]
        · rw [collect_of_token hitem, collect_of_token hitem', hcut, hevents, hfile,
            List.append_assoc]

end Lexer

/-! ### Reading tokens that are cut off -/

/-- Readers before the same tokens go on alongside each other, whatever the ends are and whether
they are quiet. -/
theorem alongside_ofStream {a b : TokenStream} {body : List Token} {stop stop' : Token}
    (hbody : ∀ t ∈ body, t.isEnd = false) (hstop : stop.isEnd = true) (hstop' : stop'.isEnd = true)
    (ha : a.tokens = body ++ [stop]) (hb : b.tokens = body ++ [stop']) :
    (ReaderState.ofStream a).Alongside (.ofStream b) := by
  have hcursor : ∀ {c : TokenStream} {last : Token}, last.isEnd = true →
      c.tokens = body ++ [last] → (ReaderState.ofStream c).cursor =
        { behind := [], ahead := body, stop := last, beyond := [], splits := [] } := by
    intro c last hlast hc
    refine (congrArg Cursor.ofTokens hc).trans (Cursor.ofTokens_append_ends hbody ?_)
    exact List.forall_mem_singleton.mpr hlast
  have hcursorA := hcursor hstop ha
  have hcursorB := hcursor hstop' hb
  refine ⟨?_, ?_, ?_, rfl⟩
  · rw [hcursorA, hcursorB]
    rfl
  · rw [hcursorA]
    exact hstop
  · rw [hcursorB]
    exact hstop'

/-- A reader that is not quiet reports the causes that it raises, in order. -/
theorem ReaderState.Leads.messages_eq {s t : ReaderState} (h : s.Leads t) (hlog : s.log = [])
    (hquiet : s.quiet = false) :
    (findings t.remarks).map Finding.message = t.causes.map Cause.message := by
  obtain ⟨said, hsaid, hfits, -⟩ := h.exists_said
  rw [hlog, List.append_nil] at hsaid
  rw [findings, remarks, causes, List.filterMap_map, List.map_filterMap, List.map_filterMap]
  refine List.filterMap_congr fun e he => ?_
  cases e with
  | suppressed error =>
    have hmem : ReaderEvent.suppressed error ∈ said := hsaid ▸ List.mem_reverse.mp he
    have hfit : s.quiet = true := hfits _ hmem
    rw [hquiet] at hfit
    cases hfit
  | _ => rfl

/-! ### What is found -/

/-- What is found where characters form no token. -/
def LexicalError.finding (cause : LexicalError) (span : Span) : Finding :=
  ⟨.error, lexerSource, cause.message, span⟩

/-- What is found in a text without an error is a warning. -/
theorem severity_of_lexing {file text : String} (h : (Frontend.lex file text).1.hadError = false) :
    ∀ f ∈ findings (Frontend.lex file text).2, f.severity = .warn := by
  intro f hf
  have hfaults := length_faults_lex file text
  rw [h, Bool.toNat_false, List.length_eq_zero_iff, List.filter_eq_nil_iff] at hfaults
  have hno := hfaults f hf
  rw [show (Frontend.lex file text).2 =
    (Lexer.ofText file text).tokenize.2.map LexerEvent.remark from rfl, findings,
    List.filterMap_map, List.mem_filterMap] at hf
  obtain ⟨e, -, he⟩ := hf
  cases e with
  | zeroPower span =>
    cases he
    rfl
  | failed cause span =>
    cases he
    exact absurd rfl hno
  | _ => cases he

/-- What is found in a file is what its lexer finds and then what its reader finds. -/
theorem findings_parse (file text : String) :
    findings (Frontend.parse file text).2 = findings (Frontend.lex file text).2 ++
      findings (Reader.parse (.ofStream (Frontend.lex file text).1)).2.remarks := by
  obtain ⟨summary, hremarks⟩ : ∃ summary, (Frontend.parse file text).2 =
      (Frontend.lex file text).2 ++
        (Reader.parse (.ofStream (Frontend.lex file text).1)).2.remarks ++ [.note summary] :=
    ⟨_, rfl⟩
  rw [hremarks, findings_append, findings_append]
  exact List.append_nil _

namespace Frontend

/-- The text has a lexical error, which begins where its first part ends. -/
structure FailsAt (file text before : String) (cause : LexicalError) (span : Span) : Prop where
  /-- The text begins with the part before the error. -/
  ahead : before.toList <+: text.toList
  /-- The error begins where that part ends. -/
  start_eq : span.start = Text.byteLength before.toList
  /-- The error is the only one. -/
  failures_eq : (Lexer.ofText file text).tokenize.2.filter LexerEvent.isFailure =
    [.failed cause span]

/-- What the reports on a text with a lexical error and on the part before the error have in
common, and what not. -/
structure ReportsApart (file text before : String) (error : Finding)
    (shared warnings errors : List Finding) : Prop where
  /-- In the whole text the lexical error is found last. -/
  whole : findings (parse file text).2 = shared ++ warnings ++ [error]
  /-- In the part before it the reader's errors are found. -/
  cut : findings (parse file before).2 = shared ++ errors
  /-- What is found in both is warnings. -/
  shared_warn : ∀ f ∈ shared, f.severity = .warn
  /-- One more warning may be about the characters of the error. -/
  warnings_cases : warnings = [] ∨
    warnings = [⟨.warn, lexerSource, "Number literal with power of 0", error.span⟩]
  /-- What is found in the part before the error alone is errors. -/
  errors_error : ∀ f ∈ errors, f.severity = .error
  /-- They are for the causes that are kept quiet in the whole text. -/
  errors_causes : errors.map Finding.message =
    (Reader.parse (.ofStream (lex file text).1)).2.causes.map Cause.message

/-- A text with a lexical error has the tokens of the part before the error, and nothing is found
beyond it but the error and a warning about its characters. -/
theorem lex_cut {file text : String} (h : (lex file text).1.hadError = true) :
    ∃ before cause span warnings, FailsAt file text before cause span ∧
      (lex file before).1.hadError = false ∧
      (lex file before).1.withoutEnd = (lex file text).1.withoutEnd ∧
      (warnings = [] ∨
        warnings = [⟨.warn, lexerSource, "Number literal with power of 0", span⟩]) ∧
      findings (lex file text).2 = findings (lex file before).2 ++ warnings ++
        [cause.finding span] := by
  obtain ⟨x, cause, span, hx⟩ := Lexer.exists_failsAfter (l := .ofText file text) rfl h
  have hbefore : (Lexer.ofText file text).before x = .ofText file (String.ofList x) := by
    simp [Lexer.before, Lexer.ofText]
  have hclean := hx.clean
  have htokens := hx.tokens_eq
  obtain ⟨warned, hwarned, hevents⟩ := hx.exists_events
  rw [hbefore] at hclean htokens hevents
  have hnone :
      (Lexer.ofText file (String.ofList x)).collect.2.1.filter LexerEvent.isFailure = [] := by
    rw [← List.length_eq_zero_iff, Lexer.length_failures_collect rfl, hclean]
    rfl
  refine ⟨String.ofList x, cause, span, findings (warned.map LexerEvent.remark), ⟨?_, ?_, ?_⟩,
    hclean, ?_, ?_, ?_⟩
  · rw [String.toList_ofList]
    exact hx.ahead
  · rw [hx.start_eq, Mark.offset_after, String.toList_ofList]
    exact Nat.zero_add _
  · rw [show (Lexer.ofText file text).tokenize.2 = (Lexer.ofText file text).collect.2.1 from rfl,
      hevents, List.filter_append, hnone]
    rcases hwarned with rfl | rfl <;> rfl
  · have hwithout := htokens.symm.trans (Lexer.withoutEnd_tokenize (.ofText file text)).symm
    exact (Lexer.withoutEnd_tokenize _).trans hwithout
  · rcases hwarned with rfl | rfl
    · exact .inl rfl
    · exact .inr rfl
  · have hremarks : (lex file text).2 =
        (Lexer.ofText file text).collect.2.1.map LexerEvent.remark := rfl
    rw [hremarks, hevents, List.map_append, List.map_append, findings_append, findings_append,
      ← List.append_assoc]
    rfl

/-- Readers of texts with the same tokens go on alongside each other. -/
theorem alongside_of_withoutEnd {file a b : String}
    (h : (lex file a).1.withoutEnd = (lex file b).1.withoutEnd) :
    (ReaderState.ofStream (lex file a).1).Alongside (.ofStream (lex file b).1) := by
  have htokens : (Lexer.ofText file a).collect.1 = (Lexer.ofText file b).collect.1 :=
    (Lexer.withoutEnd_tokenize _).symm.trans (h.trans (Lexer.withoutEnd_tokenize _))
  have hlast : (lex file b).1.tokens =
      (Lexer.ofText file a).collect.1 ++ [(Lexer.ofText file b).collect.2.2.endToken] := by
    rw [htokens]
    rfl
  refine alongside_ofStream ?_ (Token.isEnd_endOfFile _) (Token.isEnd_endOfFile _) rfl hlast
  intro t ht
  have hscanned := (Lexer.tiled_collect (Lexer.at_ofText file a) rfl).scanned t ht
  rw [Token.isEnd, beq_eq_false_iff_ne]
  exact hscanned.kind_ne

/-- **A lexical error costs only what follows it.**

Every text with a lexical error has a first part that ends where the error begins.  This part has
the same tokens, at the same places, and no lexical error, and it is read to the same statements.
The flag is up for the whole text.  For its first part it is up if the reader has found an error
there.  What is found before the error is found in both; each run puts it on record with the line
as it stands in its own text. -/
theorem parse_cut {file text : String} (h : (lex file text).1.hadError = true) :
    ∃ before cause span, FailsAt file text before cause span ∧
      (lex file before).1.hadError = false ∧
      (lex file before).1.withoutEnd = (lex file text).1.withoutEnd ∧
      (parse file text).1.statements = (parse file before).1.statements ∧
      (parse file text).1.hadError = true ∧
      ∃ shared warnings errors,
        ReportsApart file text before (cause.finding span) shared warnings errors ∧
        ((parse file before).1.hadError = true ↔ errors ≠ []) ∧
        ∀ r : Reporter, r.logger = .recording →
          (r.parse file text).2.recorded =
            (shared ++ warnings ++ [cause.finding span]).map
              (r.sources.register file text).record ∧
          (r.parse file before).2.recorded =
            (shared ++ errors).map (r.sources.register file before).record := by
  obtain ⟨before, cause, span, warnings, hfails, hclean, htokens, hwarnings, hfound⟩ := lex_cut h
  have hleads (text : String) : (ReaderState.ofStream (lex file text).1).Leads
      (Reader.parse (.ofStream (lex file text).1)).2 :=
    (Reader.parse_spec (Reader.placed_ofStream _)).1
  obtain ⟨hsame, -, hfinal⟩ := Reader.steady_parse (alongside_of_withoutEnd htokens)
  -- the reader of the whole text is quiet, and the other one is not
  have hquiet := (hleads text).findings_eq_nil rfl h
  have hwhole := findings_parse file text
  rw [hfound, hquiet, List.append_nil] at hwhole
  have hcut := findings_parse file before
  refine ⟨before, cause, span, hfails, hclean, htokens, hsame, ?_, _, warnings, _,
    ⟨hwhole, hcut, severity_of_lexing hclean, hwarnings, ?_, ?_⟩, ?_, ?_⟩
  · obtain ⟨said, -, -, hflag⟩ := (hleads text).exists_said
    exact hflag.mpr (.inl h)
  · intro f hf
    obtain ⟨e, -, rfl⟩ := mem_findings_remarks.mp hf
    rfl
  · rw [(hleads before).messages_eq rfl hclean, hfinal.causes_eq]
  · refine ((hleads before).hadError_iff_findings rfl hclean hclean).trans ?_
    rw [ne_eq, List.eq_nil_iff_forall_not_mem, not_forall_not]
  · intro r hlogger
    rw [← hwhole, ← hcut]
    exact ⟨Reporter.recorded_logFindings (r.register file text) hlogger _,
      Reporter.recorded_logFindings (r.register file before) hlogger _⟩

/-- In `1e0; x = #` the lexical error is all that is wrong.  In `1e0; x = ` the reader misses a
value.  Both are read to the one statement before the assignment. -/
theorem parse_cut_assignment :
    (lex "a" "1e0; x = #").1.hadError = true ∧
    ∃ before, before.toList <+: "1e0; x = #".toList ∧ (lex "a" before).1.hadError = false ∧
      (lex "a" before).1.withoutEnd.map Token.lexeme = ["1e0", ";", "x", "="] ∧
      (parse "a" before).1.statements.length = 1 ∧
      ∃ shared error, findings (parse "a" before).2 = shared ++ [error] ∧
        error.severity = .error ∧ (parse "a" before).1.hadError = true := by
  have hlex := Lexer.tokenize_eq_within 11 (l := .ofText "a" "1e0; x = #") (by decide)
  have herror : (lex "a" "1e0; x = #").1.hadError = true := by
    rw [lex, hlex]
    decide +kernel
  have hlexemes : (lex "a" "1e0; x = #").1.withoutEnd.map Token.lexeme =
      ["1e0", ";", "x", "="] := by
    rw [lex, hlex]
    decide +kernel
  have hlength : (parse "a" "1e0; x = #").1.statements.length = 1 := by
    simp only [parse, lex, hlex]
    decide +kernel
  have hcauses : (Reader.parse (.ofStream (lex "a" "1e0; x = #").1)).2.causes.length = 1 := by
    rw [lex, hlex]
    decide +kernel
  obtain ⟨before, cause, span, hfails, hclean, htokens, hstatements, -, shared, warnings, errors,
    happart, hflag, -⟩ := parse_cut herror
  obtain ⟨error, rfl⟩ : ∃ error, errors = [error] := by
    rw [← List.length_eq_one_iff, ← List.length_map (f := Finding.message), happart.errors_causes,
      List.length_map, hcauses]
  refine ⟨herror, before, hfails.ahead, hclean, htokens ▸ hlexemes, hstatements ▸ hlength, shared,
    error, happart.cut, happart.errors_error error (List.mem_singleton_self _), ?_⟩
  exact hflag.mpr (List.cons_ne_nil _ _)

/-- The two runs do not have all warnings in common.  In `1e0 99999999999999999999e0` the number
that is too large is warned about before it is an error, and the warning about the first number is
put on record with a longer line. -/
theorem parse_cut_idle_exponent :
    let text := "1e0 99999999999999999999e0"
    let records (text : String) := (({ logger := .recording } : Reporter).parse "a" text).2.recorded
    (∃ span, FailsAt "a" text "1e0 " .integerOverflow span) ∧
    (records text).map Record.severity = [.warn, .warn, .error] ∧
    (records "1e0 ").map Record.severity = [.warn] ∧
    (records text).head?.map Record.message =
      some "1e0 99999999999999999999e0\n^^^\n[a:1:0] Number literal with power of 0" ∧
    (records "1e0 ").head?.map Record.message =
      some "1e0 \n^^^\n[a:1:0] Number literal with power of 0" ∧
    (records text).filter (·.severity != .error) ≠
      (records "1e0 ").filter (·.severity != .error) := by
  have hlong := Lexer.tokenize_eq_within 30 (l := .ofText "a" "1e0 99999999999999999999e0")
    (by decide)
  have hshort := Lexer.tokenize_eq_within 5 (l := .ofText "a" "1e0 ") (by decide)
  refine ⟨⟨Mark.spanOver (Mark.start.after "1e0 ".toList) "a" "99999999999999999999e0".toList,
    ?_, ?_, ?_⟩, ?_, ?_, ?_, ?_, ?_⟩
  · decide
  · decide
  · rw [hlong]
    decide +kernel
  all_goals
    simp only [Reporter.parse, parse, lex, hlong, hshort]
    decide +kernel

end Frontend
end CurlyScript
