import CurlyScript.Frontend
import CurlyScript.Proofs.StmtSyntax

/-!
# Parsing is total

Whatever the tokens are, parsing them comes to an end, and on its way it stays inside them.  The
tokens may be such as no text has: without an end, with an end in their middle, in any order.

The rules of the grammar call each other again with a bound for what is left to read, and their
loops count down from it.  That the bound is never what stops them is said by `Reader.HaltsAt`:
what a rule comes to follows from what the rules come to where less is left to read, whatever the
bounds are.  So the measure that goes down is `Cursor.remaining`, in which a shift counts for two.

## Main definitions

* `Reader.HaltsAt` — in some state, rules are determined by themselves where less is left to read,
  and end in a state that is reached.

## Main results

* `Reader.parse_total` — parsing any tokens halts, stays inside them, shrinks what is left with
  every declaration, and ends at the first end.
-/

namespace CurlyScript

/-! ### What stands where the cursor is -/

namespace Cursor

/-- The next token is the one at the place of the cursor. -/
theorem getElem?_position (c : Cursor) : c.tokens[c.position]? = some c.here := by
  have hposition : c.position = c.behind.reverse.length := by simp [position]
  rw [tokens, List.append_assoc, hposition, List.getElem?_append_right (Nat.le_refl _),
    Nat.sub_self]
  rcases h : c.ahead with _ | ⟨t, rest⟩
  · simp [here, h]
  · simp [here, h]

/-- Before the end, the token after the next one is the one after the place of the cursor. -/
theorem getElem?_position_succ {c : Cursor} (h : c.atEnd = false) :
    c.tokens[c.position + 1]? = some c.second := by
  have hposition : c.position + 1 = c.behind.reverse.length + 1 := by simp [position]
  rw [tokens, List.append_assoc, hposition,
    List.getElem?_append_right (Nat.le_add_right _ _), Nat.add_sub_cancel_left]
  rcases hahead : c.ahead with _ | ⟨t, _ | ⟨u, rest⟩⟩
  · simp [atEnd, hahead] at h
  · simp [second, hahead]
  · simp [second, hahead]

/-- At the end the cursor stands before the first end. -/
theorem position_eq_findIdx {c : Cursor} (h : c.Placed) (hend : c.ahead = []) :
    c.position = c.tokens.findIdx Token.isEnd := by
  rw [findIdx_isEnd h, body, hend, List.append_nil, List.length_reverse, position]

end Cursor

/-- The halves of a shift have spans. -/
theorem span_halfShift (shift : Token) (skip : Nat) :
    Span.ofOffsets shift.span.file shift.span.line shift.span.lineStart (shift.span.start + skip)
      (shift.span.start + skip + 1) = .ok (halfShift shift skip).span := by
  have hline := shift.span.lineStart_le_start
  rw [Span.ofOffsets, dif_pos (Nat.le_succ _), dif_pos (by omega)]
  rfl

namespace Reader

/-! ### Rules that halt -/

/-- Rules halt in a state: `run` gives the rules with a bound for what is left to read, and `body`
gives them by the rules that they call again.  If these come to the same as the rules wherever
the cursor has gone on and less is left to read, one unfolding comes to the same as the rule, for
all bounds that are large enough.  The rule ends in a state that follows this one. -/
def HaltsAt {ι α : Type} (run : Nat → ι → Reader α) (body : Nat → (ι → Reader α) → ι → Reader α)
    (s : ReaderState) : Prop :=
  ∀ (rule : ι) (fuel count : Nat) (again : ι → Reader α), s.cursor.remaining ≤ fuel →
    s.cursor.remaining ≤ count + 1 →
    (∀ (other : ι) (t : ReaderState), s.cursor.Reaches t.cursor →
      t.cursor.remaining < s.cursor.remaining → again other t = run fuel other t) →
    body count again rule s = run fuel rule s ∧ s.Leads (endState (run fuel rule s))

/-- Rules halt if they keep a contract as soon as the rules that they call again do. -/
theorem haltsAt_of_meets {ι α : Type} {run : Nat → ι → Reader α}
    {body : Nat → (ι → Reader α) → ι → Reader α} {reads : ι → Reading α} {s : ReaderState}
    (hs : s.cursor.Placed)
    (hrun : ∀ n {fuel fuel' : Nat}, n ≤ fuel + 1 → n ≤ fuel' + 1 → ∀ rule,
      Meets s.cursor n always (run fuel rule) (run fuel' rule) (reads rule))
    (hbody : ∀ {n fuel fuel' : Nat} {again again' : ι → Reader α},
      (∀ rule, Meets s.cursor n always (again rule) (again' rule) (reads rule)) → n ≤ fuel + 1 →
      n ≤ fuel' + 1 → ∀ rule,
      Meets s.cursor (n + 1) always (body fuel again rule) (body fuel' again' rule) (reads rule))
    (hunfold : ∀ {fuel : Nat} {s : ReaderState}, s.cursor.Placed → s.cursor.remaining ≤ fuel →
      ∀ rule, run fuel rule s = body (fuel - 1) (run (fuel - 1)) rule s) :
    HaltsAt run body s := by
  intro rule fuel count again hfuel hcount hagain
  have hless : ∀ other, Meets s.cursor s.cursor.remaining always (run (fuel - 1) other)
      (again other) (reads other) := by
    intro other t ht hlt
    have hmeets : MeetsAt t always (run (fuel - 1) other) (run fuel other) _ :=
      hrun s.cursor.remaining (by omega) (by omega) other t ht hlt
    exact hmeets.of_eq rfl (hagain other t ht.reaches hlt)
  have hwhole :
      MeetsAt s always (body (fuel - 1) (run (fuel - 1)) rule) (body count again rule) _ :=
    hbody hless (by omega) hcount rule s hs.from_self (Nat.lt_succ_self _)
  have hrule := hunfold hs hfuel rule
  exact ⟨by rw [hrule]; exact hwhole.agree, by rw [hrule]; exact hwhole.leads⟩

theorem haltsAt_typeAt {s : ReaderState} (hs : s.cursor.Placed) : HaltsAt typeAt typeBody s :=
  haltsAt_of_meets hs meets_typeAt (fun hagain hfuel hfuel' => meets_typeBody hagain hfuel hfuel')
    fun _ hfuel rule => typeAt_eq hfuel rule

theorem haltsAt_ruleAt {s : ReaderState} (hs : s.cursor.Placed) : HaltsAt ruleAt Rule.body s :=
  haltsAt_of_meets hs meets_ruleAt meets_ruleBody fun hs hfuel rule =>
    ruleAt_eq hs.from_self hfuel rule

theorem haltsAt_stmtAt {s : ReaderState} (hs : s.cursor.Placed) :
    HaltsAt stmtAt StmtRule.body s :=
  haltsAt_of_meets hs meets_stmtAt meets_stmtBody fun hs hfuel rule =>
    stmtAt_eq hs.from_self hfuel rule

/-! ### Declarations -/

/-- A declaration comes to the same for every bound that is large enough. -/
theorem recover_stmtAt_eq {s : ReaderState} (hs : s.cursor.Placed) {fuel : Nat}
    (hfuel : s.cursor.remaining ≤ fuel) :
    recover (stmtAt fuel .declaration) s = declaration s := by
  have hmeets := meets_stmtAt (s.cursor.remaining + 1) (Nat.le_refl _)
    (Nat.succ_le_succ hfuel) .declaration s hs.from_self (Nat.lt_succ_self _)
  rw [declaration, recover, recover, hmeets.agree]

/-- So do all declarations of a file. -/
theorem declarations_eq {count count' : Nat} {s : ReaderState} (hs : s.cursor.Placed)
    (hcount : s.cursor.remaining ≤ count) (hcount' : s.cursor.remaining ≤ count') :
    declarations count s = declarations count' s := by
  have hend : ∀ {s : ReaderState} (count : Nat), s.cursor.remaining ≤ 0 →
      declarations count s = ([], s) := by
    intro s count h
    cases count with
    | zero => rfl
    | succ count => simp [declarations, Cursor.atEnd, ahead_eq_nil h]
  induction count generalizing count' s with
  | zero => rw [hend 0 hcount, hend count' hcount]
  | succ count ih =>
    cases count' with
    | zero => rw [hend (count + 1) hcount', hend 0 hcount']
    | succ count' =>
      by_cases hahead : s.cursor.ahead = []
      · simp [declarations, Cursor.atEnd, hahead]
      · have hlt := remaining_declaration_lt hs.from_self hahead
        have hplaced := ((leads_declaration hs.from_self hahead).from_cursor hs.from_self).placed
        have hatEnd : s.cursor.atEnd = false := by simpa [Cursor.atEnd] using hahead
        rcases hdecl : declaration s with ⟨_ | stmt, t⟩
        · rw [hdecl] at hlt hplaced
          simp only [declarations, hatEnd, hdecl]
          exact ih hplaced (Nat.le_of_lt_succ (Nat.lt_of_lt_of_le hlt hcount))
            (Nat.le_of_lt_succ (Nat.lt_of_lt_of_le hlt hcount'))
        · rw [hdecl] at hlt hplaced
          have hmore : declarations count (t.note (.parsed stmt.name)) =
              declarations count' (t.note (.parsed stmt.name)) :=
            ih hplaced (Nat.le_of_lt_succ (Nat.lt_of_lt_of_le hlt hcount))
              (Nat.le_of_lt_succ (Nat.lt_of_lt_of_le hlt hcount'))
          simp only [declarations, hatEnd, hdecl, hmore]

/-- Parsing again at the end finds nothing and has nothing to complain about. -/
theorem parse_at_end {s : ReaderState} (h : s.cursor.ahead = []) :
    parse s = ([], s.note (.finished 0 s.hadError)) := by
  have hremaining : s.cursor.remaining = 0 := by simp [Cursor.remaining, h]
  simp only [parse, hremaining, declarations, List.length_nil]

/-! ### Whole runs -/

/-- The state before the first of any tokens. -/
theorem placed_ofStream (stream : TokenStream) : (ReaderState.ofStream stream).cursor.Placed :=
  (Cursor.ofTokens_spec stream.tokens).1

/-- Parsing goes from the start to the first end. -/
theorem parse_spec {s : ReaderState} (hs : s.cursor.Placed) :
    s.Leads (parse s).2 ∧ (parse s).2.cursor.ahead = [] := by
  obtain ⟨hleads, hend, -⟩ := declarations_spec hs.from_self (Nat.le_refl s.cursor.remaining)
  exact ⟨hleads.trans (ReaderState.leads_note _ _ trivial rfl), hend⟩

/-- **Parsing is total on every list of tokens.**

Wherever the cursor can go, it stands on a token, the last token is an end, no end is behind it,
and the splits can be undone inside the tokens; the tokens that are looked at are those at its
place and after it, and the spans that are made for split shifts and for a missing end are
well-formed.

In every state that follows the start, the rules for types, expressions and statements halt, and a
declaration that does not begin at the end leaves less to read than before, whatever bound it is
given.

Parsing itself does not depend on its bound, ends with the cursor at the first end, and when it is
done once more from there it finds no statement and says nothing but that it has finished. -/
theorem parse_total (stream : TokenStream) :
    (∀ c : Cursor, (Cursor.ofTokens stream.tokens).Reaches c →
      c.Sound ∧ c.tokens[c.position]? = some c.here ∧
      (c.atEnd = false → c.tokens[c.position + 1]? = some c.second) ∧
      ∀ shift ∈ c.tokens, ∀ skip, Span.ofOffsets shift.span.file shift.span.line
        shift.span.lineStart (shift.span.start + skip) (shift.span.start + skip + 1) =
          .ok (halfShift shift skip).span) ∧
    Span.ofOffsets "<empty>" 1 0 0 0 = .ok (missingEnd []).span ∧
    (∀ s : ReaderState, (ReaderState.ofStream stream).Leads s →
      HaltsAt typeAt typeBody s ∧ HaltsAt ruleAt Rule.body s ∧ HaltsAt stmtAt StmtRule.body s ∧
      (s.cursor.atEnd = false → ∀ fuel, s.cursor.remaining ≤ fuel →
        recover (stmtAt fuel .declaration) s = declaration s ∧ s.Leads (declaration s).2 ∧
        (declaration s).2.cursor.remaining < s.cursor.remaining)) ∧
    (∀ count, (ReaderState.ofStream stream).cursor.remaining ≤ count →
      declarations count (.ofStream stream) =
        declarations (ReaderState.ofStream stream).cursor.remaining (.ofStream stream)) ∧
    (ReaderState.ofStream stream).Leads (parse (.ofStream stream)).2 ∧
    (parse (.ofStream stream)).2.cursor.position =
      (parse (.ofStream stream)).2.cursor.tokens.findIdx Token.isEnd ∧
    parse (parse (.ofStream stream)).2 =
      ([], (parse (.ofStream stream)).2.note
        (.finished 0 (parse (.ofStream stream)).2.hadError)) := by
  have hstart := placed_ofStream stream
  obtain ⟨hleads, hend⟩ := parse_spec hstart
  refine ⟨fun c hc => ⟨Cursor.sound_of_reaches hc, c.getElem?_position,
    Cursor.getElem?_position_succ, fun shift _ skip => span_halfShift shift skip⟩, rfl, ?_, ?_,
    hleads, Cursor.position_eq_findIdx (hleads.from_cursor hstart.from_self).placed hend,
    parse_at_end hend⟩
  · intro s hs
    have hplaced := (hs.from_cursor hstart.from_self).placed
    refine ⟨haltsAt_typeAt hplaced, haltsAt_ruleAt hplaced, haltsAt_stmtAt hplaced, ?_⟩
    intro hatEnd fuel hfuel
    have hne : s.cursor.ahead ≠ [] := by simpa [Cursor.atEnd] using hatEnd
    exact ⟨recover_stmtAt_eq hplaced hfuel, leads_declaration hplaced.from_self hne,
      remaining_declaration_lt hplaced.from_self hne⟩
  · intro count hcount
    exact declarations_eq hstart hcount (Nat.le_refl _)

end Reader
end CurlyScript
