import CurlyScript.Proofs.InStep
import CurlyScript.Proofs.Locality
import CurlyScript.Proofs.Printer

/-!
# Parsing goes statement by statement

If some tokens are parsed without complaint and end with a semicolon or a closing brace, parsing
does not notice where they end: with other tokens after them they come to the same statements, and
the other tokens come to what they come to by themselves, with all their errors.  Only the word
`else` would reach back over the seam.

Up to the seam this is the locality of readings.  Past it the run is in step with a run that
begins there: what is behind the cursor and what has been noted before make no difference.

## Main definitions

* `ReaderState.errors` — the errors that were reported.

## Main results

* `Reader.declarations_append` — the declarations before the seam are read as if it were the end.
* `Reader.parse_append` — parsing goes over the seam.
-/

namespace CurlyScript

/-- The error that an event reports. -/
def ReaderEvent.error? : ReaderEvent → Option SyntaxError
  | .reported e => some e
  | _ => none

/-- The errors that were reported, in order. -/
def ReaderState.errors (s : ReaderState) : List SyntaxError :=
  s.log.reverse.filterMap ReaderEvent.error?

namespace Reader

/-! ### Up to the seam -/

/-- A reader without complaint has reported nothing. -/
theorem errors_eq_nil_of_clean {s t : ReaderState} (h : s.Leads t) (hlog : s.log = [])
    (hclean : t.hadError = false) : t.errors = [] := by
  obtain ⟨said, hsaid, -, hflag⟩ := h.exists_said
  rw [ReaderState.errors, List.filterMap_eq_nil_iff]
  intro e he
  rw [List.mem_reverse, hsaid, hlog, List.append_nil] at he
  cases e with
  | reported error =>
    have := hflag.mpr (.inr ⟨_, he, rfl⟩)
    rw [hclean] at this
    cases this
  | _ => rfl

/-- A declaration that is read from the tokens ahead without complaint. -/
theorem declaration_of_reads {s : ReaderState} (hs : s.cursor.Placed) (hclean : s.hadError = false)
    {stmt : Stmt} {rest : List Token} (h : ReadsStmt .declaration s.cursor.ahead stmt rest) :
    ∃ t, declaration s = (some stmt, t) ∧ s.Leads t ∧ t.hadError = false ∧ t.cursor.ahead = rest ∧
      t.cursor.remaining < s.cursor.remaining := by
  have hne : s.cursor.ahead ≠ [] := by
    intro hnil
    exact not_atClose_of_declaration h (.inl hnil)
  have hmeets := meetsAt_declaration hs.from_self hne
  obtain ⟨t, hrun, herror, hrest⟩ := (hmeets.clean hclean (some stmt) rest).mpr ⟨stmt, h, rfl⟩
  have hdecl : declaration s = (some stmt, t) := by
    rw [recovered_declaration] at hrun
    injection hrun with hstmt hstate
    exact Prod.ext hstmt hstate
  have hleads := leads_declaration hs.from_self hne
  have hlt := remaining_declaration_lt hs.from_self hne
  rw [hdecl] at hleads hlt
  exact ⟨t, hdecl, hleads, herror, hrest, hlt⟩

/-- The declarations before the seam are read as if it were the end, and reading goes on from
there. -/
theorem declarations_append {a b : List Token} {stmts : List Stmt} (h : ReadsFile a stmts)
    (ha : Finished a) (hb : headKind? b ≠ some (.keyword .else)) {s : ReaderState}
    (hs : s.cursor.Placed) (hclean : s.hadError = false) (hahead : s.cursor.ahead = a ++ b)
    {count : Nat} (hcount : s.cursor.remaining ≤ count) :
    ∃ t left, s.Leads t ∧ t.hadError = false ∧ t.cursor.ahead = b ∧ t.cursor.remaining ≤ left ∧
      declarations count s = (stmts ++ (declarations left t).1, (declarations left t).2) := by
  -- the induction is on the declarations before the seam, the rest of the run staying as it is
  induction h generalizing s count with
  | done => exact ⟨s, count, .refl s, hclean, hahead, hcount, rfl⟩
  | @more a rest stmt stmts h hmore ih =>
    have hsealed : Sealed a := ha.resolve_left fun hnil =>
      not_atClose_of_declaration h (.inl hnil)
    obtain ⟨hrest, hread⟩ := h.extend hsealed (by simp [StmtForm.isList]) hb
    rw [← hahead] at hread
    obtain ⟨t, hdecl, hleads, herror, htahead, hlt⟩ := declaration_of_reads hs hclean hread
    -- the statement is noted before the next one is read
    have hnoted : s.Leads (t.note (.parsed stmt.name)) :=
      hleads.trans (t.leads_note _ trivial rfl)
    obtain ⟨count, rfl⟩ : ∃ n, count = n + 1 := ⟨count - 1, by omega⟩
    obtain ⟨u, left, hu, huerror, huahead, hleft, hrun⟩ :=
      ih hrest (hs.reaches hnoted.reaches) herror htahead
        (Nat.le_of_lt_succ (Nat.lt_of_lt_of_le hlt hcount))
    refine ⟨u, left, hnoted.trans hu, huerror, huahead, hleft, ?_⟩
    have hatEnd : s.cursor.atEnd = false := by
      obtain ⟨v, more, hcons⟩ := List.exists_cons_of_ne_nil hsealed.ne_nil
      simp [Cursor.atEnd, hahead, hcons]
    simp only [declarations, hatEnd, hdecl, hrun]
    rfl

/-! ### Past the seam -/

/-- The last token of longer tokens is the last one of their end. -/
theorem missingEnd_append (a : List Token) {b : List Token} (hb : b ≠ []) :
    missingEnd (a ++ b) = missingEnd b := by
  unfold missingEnd
  rw [List.getLast?_append_of_ne_nil a hb]

/-- A run that has come to the seam is abreast of one that begins there. -/
theorem abreast_seam {a b ends : List Token} (ha : ∀ t ∈ a, t.isEnd = false)
    (hb : ∀ t ∈ b, t.isEnd = false) (hends : ∀ t ∈ ends, t.isEnd = true)
    (hne : b ++ ends ≠ []) {t : ReaderState}
    (hleads : (ReaderState.ofStream ⟨a ++ b ++ ends, false⟩).Leads t) (hclean : t.hadError = false)
    (hahead : t.cursor.ahead = b) :
    (⟨.identical, t.log, []⟩ : Pairing).Abreast t (.ofStream ⟨b ++ ends, false⟩) := by
  have hall : ∀ u ∈ a ++ b, u.isEnd = false := List.forall_mem_append.mpr ⟨ha, hb⟩
  have hcursor := Cursor.ofTokens_append_ends hall hends
  have hcursor' := Cursor.ofTokens_append_ends hb hends
  have hstop : t.cursor.stop = (ReaderState.ofStream ⟨b ++ ends, false⟩).cursor.stop := by
    obtain ⟨-, -, -, hstop, -⟩ := hleads.reaches.exists_undo
    have hfirst : (ReaderState.ofStream ⟨a ++ b ++ ends, false⟩).cursor.stop =
        ends.headD (missingEnd (a ++ b)) := congrArg Cursor.stop hcursor
    have hsecond : (ReaderState.ofStream ⟨b ++ ends, false⟩).cursor.stop =
        ends.headD (missingEnd b) := congrArg Cursor.stop hcursor'
    rw [hstop, hfirst, hsecond]
    -- an end that is missing is put after the last token, which both runs have
    rcases ends with _ | ⟨stop, beyond⟩
    · rw [List.append_nil] at hne
      rw [missingEnd_append a hne]
    · rfl
  refine ⟨(placed_ofStream _).reaches hleads.reaches, placed_ofStream _, ?_, hstop, hclean,
    hleads.quiet_eq, [], [], rfl, rfl, like_nil⟩
  rw [hahead]
  exact (congrArg Cursor.ahead hcursor').symm

/-- The errors of a run past a clean state are those of a run that is in step with it. -/
theorem errors_eq_of_abreast {t s s' : ReaderState} (ht : t.errors = [])
    (h : (⟨.identical, t.log, []⟩ : Pairing).Abreast s s') : s.errors = s'.errors := by
  obtain ⟨said, said', hlog, hlog', hsaid⟩ := h.exists_said
  have hequal : said = said' := hsaid
  subst hequal
  unfold ReaderState.errors at ht ⊢
  rw [hlog, hlog', List.reverse_append, List.filterMap_append, ht, List.nil_append,
    List.append_nil]

/-- The last note, that parsing has finished, is no error. -/
theorem errors_parse (s : ReaderState) :
    (parse s).2.errors = (declarations s.cursor.remaining s).2.errors := by
  simp [parse, ReaderState.errors, ReaderState.note, ReaderEvent.error?]

/-- **Parsing goes statement by statement.**

Let some tokens be parsed without complaint, and be none or end with a semicolon or a closing
brace.  With other tokens after them, of which the first is not `else`, all are parsed to the
statements of the first followed by the statements of the others.  The flag and the reported errors
are those of the others alone.  Any number of ends may come after the tokens of each run. -/
theorem parse_append {a b : List Token} (ha : ∀ t ∈ a, t.kind ≠ .endOfFile)
    (hb : ∀ t ∈ b, t.kind ≠ .endOfFile) (hfinished : Finished a) (stops ends : List Span)
    (hclean : (parse (.ofStream ⟨a ++ stops.map .endOfFile, false⟩)).2.hadError = false)
    (helse : headKind? b ≠ some (.keyword .else)) :
    (parse (.ofStream ⟨a ++ b ++ ends.map .endOfFile, false⟩)).1 =
      (parse (.ofStream ⟨a ++ stops.map .endOfFile, false⟩)).1 ++
        (parse (.ofStream ⟨b ++ ends.map .endOfFile, false⟩)).1 ∧
    (parse (.ofStream ⟨a ++ b ++ ends.map .endOfFile, false⟩)).2.hadError =
      (parse (.ofStream ⟨b ++ ends.map .endOfFile, false⟩)).2.hadError ∧
    (parse (.ofStream ⟨a ++ b ++ ends.map .endOfFile, false⟩)).2.errors =
      (parse (.ofStream ⟨b ++ ends.map .endOfFile, false⟩)).2.errors := by
  have ha' : ∀ t ∈ a, t.isEnd = false := by simpa [Token.isEnd] using ha
  have hb' : ∀ t ∈ b, t.isEnd = false := by simpa [Token.isEnd] using hb
  have hall : ∀ t ∈ a ++ b, t.isEnd = false := List.forall_mem_append.mpr ⟨ha', hb'⟩
  have hmarks : ∀ spans : List Span, ∀ t ∈ spans.map Token.endOfFile, t.isEnd = true := by simp
  have hread := (parse_append_ends_clean_iff ha' (hmarks stops) _).mp ⟨rfl, hclean⟩
  generalize (parse (.ofStream ⟨a ++ stops.map .endOfFile, false⟩)).1 = stmts at hread ⊢
  have hends := hmarks ends
  generalize ends.map Token.endOfFile = ends at hends ⊢
  by_cases hne : b ++ ends = []
  · -- nothing comes after the seam, not even an end whose place could be compared
    obtain ⟨rfl, rfl⟩ := List.append_eq_nil_iff.mp hne
    obtain ⟨hstmts, hflag⟩ := (parse_append_ends_clean_iff hall hends _).mpr
      ((List.append_nil a).symm ▸ hread)
    have hleads := (parse_spec (placed_ofStream ⟨a ++ [] ++ [], false⟩)).1
    have hnone := parse_at_end (show (ReaderState.ofStream ⟨[] ++ [], false⟩).cursor.ahead = []
      from congrArg Cursor.ahead (Cursor.ofTokens_append_ends hb' hends))
    rw [hstmts, hflag, errors_eq_nil_of_clean hleads rfl hflag, hnone, List.append_nil]
    exact ⟨rfl, rfl, rfl⟩
  · have hahead : (ReaderState.ofStream ⟨a ++ b ++ ends, false⟩).cursor.ahead = a ++ b :=
      congrArg Cursor.ahead (Cursor.ofTokens_append_ends hall hends)
    obtain ⟨t, left, hleads, herror, htahead, hleft, hrun⟩ := declarations_append hread hfinished
      helse (placed_ofStream _) rfl hahead (Nat.le_refl _)
    have hseam := abreast_seam ha' hb' hends hne hleads herror htahead
    obtain ⟨hothers, hfinal⟩ := Pairing.abreast_declarations left hseam
    -- the run that begins at the seam may count its declarations itself
    have hbound := declarations_eq (placed_ofStream ⟨b ++ ends, false⟩)
      (hseam.remaining_eq ▸ hleft) (Nat.le_refl _)
    rw [hbound] at hothers hfinal
    have herrors := errors_eq_of_abreast (errors_eq_nil_of_clean hleads rfl herror) hfinal
    rw [errors_parse, errors_parse, hrun]
    unfold parse
    rw [hrun]
    exact ⟨congrArg _ hothers, hfinal.hadError_eq, herrors⟩

/-- A finished statement and a faulty one: the fault is the second one's, and is found there. -/
theorem parse_append_break :
    let first := [(Piece.mark (.keyword .break)).token, (Piece.punct .semicolon).token]
    let second := [(Piece.mark (.keyword .break)).token, (Piece.punct .rparen).token]
    (parse (.ofStream ⟨second ++ [].map .endOfFile, false⟩)).2.hadError = true ∧
    (parse (.ofStream ⟨first ++ second ++ [].map .endOfFile, false⟩)).1 =
      (parse (.ofStream ⟨first ++ [].map .endOfFile, false⟩)).1 ++
        (parse (.ofStream ⟨second ++ [].map .endOfFile, false⟩)).1 ∧
    (parse (.ofStream ⟨first ++ second ++ [].map .endOfFile, false⟩)).2.hadError =
      (parse (.ofStream ⟨second ++ [].map .endOfFile, false⟩)).2.hadError ∧
    (parse (.ofStream ⟨first ++ second ++ [].map .endOfFile, false⟩)).2.errors =
      (parse (.ofStream ⟨second ++ [].map .endOfFile, false⟩)).2.errors := by
  refine ⟨by decide +kernel, ?_⟩
  exact parse_append (by decide) (by decide) (.inr ⟨_, rfl, rfl⟩) [] [] (by decide +kernel)
    (by decide)

end Reader
end CurlyScript
