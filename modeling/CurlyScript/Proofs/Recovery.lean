import CurlyScript.Proofs.Complaints

/-!
# Where reading goes on after an error

A declaration that fails leaves the cursor before the token at which the error was found.  This
token is passed, whatever it is, and reading goes on at the first token after it with which a
declaration can start.  So a declaration that begins right after the token of the error is read,
and one that begins at this very token is not.  At the end of the file there is nothing to pass.

## Main definitions

* `Reader.restarts` — the tokens at which reading goes on.
* `Reader.FirstRestart` — the first of them from some place on.

## Main results

* `Cursor.firstRestart_skipTo` — where skipping ends.
* `Reader.resumes_after_error` — where reading goes on after a declaration has failed.
-/

namespace CurlyScript

namespace Reader

/-- Whether reading goes on at a token: a declaration can start with it, or the file ends. -/
def restarts (t : Token) : Bool := startsDeclaration t || t.isEnd

/-- The place `j` is the first one from `i` on at which reading goes on. -/
structure FirstRestart (tokens : List Token) (i j : Nat) : Prop where
  /-- It does not come before `i`. -/
  le : i ≤ j
  /-- There is such a token. -/
  found : ∃ t, tokens[j]? = some t ∧ restarts t = true
  /-- The tokens up to it are passed. -/
  passed : ∀ k t, i ≤ k → k < j → tokens[k]? = some t → restarts t = false

theorem isEnd_of_startsDeclaration {t : Token} (h : startsDeclaration t = true) :
    t.isEnd = false := by
  cases hend : t.isEnd with
  | false => rfl
  | true =>
    rw [Token.isEnd, beq_iff_eq] at hend
    rw [startsDeclaration, hend] at h
    cases h

/-- A token that is passed, unless it is the end, does not matter for where reading goes on, unless
a declaration starts with it. -/
theorem FirstRestart.from_iff {tokens : List Token} {t : Token} {i j : Nat}
    (hi : tokens[i]? = some t) (h : FirstRestart tokens (if t.isEnd then i else i + 1) j) :
    FirstRestart tokens i j ↔ startsDeclaration t = false := by
  constructor
  · intro hfirst
    by_contra hstarts
    rw [Bool.not_eq_false] at hstarts
    have hle := h.le
    rw [isEnd_of_startsDeclaration hstarts] at hle
    have hpassed := hfirst.passed i t (Nat.le_refl _) hle hi
    rw [restarts, hstarts] at hpassed
    cases hpassed
  · intro hstarts
    by_cases hend : t.isEnd = true
    · rw [if_pos hend] at h
      exact h
    rw [if_neg hend] at h
    refine ⟨Nat.le_of_succ_le h.le, h.found, fun k u hik hkj hu => ?_⟩
    by_cases hk : k = i
    · subst hk
      rw [hi] at hu
      cases hu
      rw [restarts, hstarts, Bool.false_or]
      exact Bool.eq_false_of_not_eq_true hend
    · exact h.passed k u (by omega) hkj hu

end Reader

/-! ### Skipping -/

namespace Cursor

open Reader

/-- Before the end one token is passed, at the end none. -/
theorem position_advance {c : Cursor} (h : c.Placed) :
    c.advance.position = if c.here.isEnd then c.position else c.position + 1 := by
  rcases hahead : c.ahead with _ | ⟨t, rest⟩
  · have hend : c.here.isEnd = true := by
      rw [here, hahead]
      exact h.stop_isEnd
    have hstay : c.advance = c := by simp only [advance, hahead]
    rw [if_pos hend, hstay]
  · have hhere : c.here = t := by
      rw [here, hahead]
      rfl
    have hend : c.here.isEnd = false := by
      rw [hhere]
      exact h.ahead_not_isEnd (hahead ▸ List.mem_cons_self)
    rw [hend, position_advance_of_cons hahead]
    rfl

/-- Skipping passes one token, and then those up to the first one where it stops. -/
theorem skipTo_eq (c : Cursor) (stopAt : Token → Bool) :
    c.skipTo stopAt =
      { c.advance with
        behind := (c.advance.ahead.takeWhile fun t => !stopAt t).reverse ++ c.advance.behind
        ahead := c.advance.ahead.dropWhile fun t => !stopAt t } := by
  simp only [skipTo, Pairing.drop_length_takeWhile]

theorem tokens_skipTo (c : Cursor) (stopAt : Token → Bool) :
    (c.skipTo stopAt).tokens = c.tokens := by
  rw [← tokens_advance c, skipTo_eq]
  simp only [tokens, List.reverse_append, List.reverse_reverse, List.append_assoc]
  rw [← List.append_assoc (List.takeWhile _ _), List.takeWhile_append_dropWhile]

/-- Skipping ends before a token that restarts reading. -/
theorem restarts_skipTo {c : Cursor} (h : c.Placed) :
    restarts (c.skipTo startsDeclaration).here = true := by
  have hplaced : (c.skipTo startsDeclaration).Placed := h.reaches (reaches_skipTo c _)
  rcases hahead : (c.skipTo startsDeclaration).ahead with _ | ⟨t, rest⟩
  · rw [here, hahead, restarts, Bool.or_eq_true]
    exact .inr hplaced.stop_isEnd
  · have hdrop : c.advance.ahead.dropWhile (fun t => !startsDeclaration t) = t :: rest := by
      rw [skipTo_eq] at hahead
      exact hahead
    have hne : c.advance.ahead.dropWhile (fun t => !startsDeclaration t) ≠ [] := by
      rw [hdrop]
      exact List.cons_ne_nil _ _
    have hstop := List.head_dropWhile_not (fun t => !startsDeclaration t) hne
    simp only [hdrop, List.head_cons, Bool.not_eq_false'] at hstop
    rw [here, hahead, restarts, Bool.or_eq_true]
    exact .inl hstop

/-- Skipping ends at the first token, from the one after the next on, that restarts reading. -/
theorem firstRestart_skipTo {c : Cursor} (h : c.Placed) :
    FirstRestart c.tokens c.advance.position (c.skipTo startsDeclaration).position := by
  have hadvance : c.advance.Placed := h.reaches (.advance (.refl c))
  have hposition : (c.skipTo startsDeclaration).position =
      c.advance.position + (c.advance.ahead.takeWhile fun t => !startsDeclaration t).length := by
    rw [skipTo_eq, position, position, List.length_append, List.length_reverse, Nat.add_comm]
  refine ⟨?_, ⟨(c.skipTo startsDeclaration).here, ?_, restarts_skipTo h⟩, ?_⟩
  · rw [hposition]
    exact Nat.le_add_right _ _
  · rw [← tokens_skipTo c startsDeclaration]
    exact getElem?_position _
  · intro k t hk hlt htoken
    -- the token is one of those that were passed after the first one
    have hmem : t ∈ c.advance.ahead.takeWhile fun t => !startsDeclaration t := by
      have hlength : c.advance.behind.reverse.length = c.advance.position := List.length_reverse
      have hsplit : c.tokens = c.advance.behind.reverse ++
          ((c.advance.ahead.takeWhile fun t => !startsDeclaration t) ++
            ((c.advance.ahead.dropWhile fun t => !startsDeclaration t) ++
              c.advance.stop :: c.advance.beyond)) := by
        rw [← tokens_advance c, tokens, ← List.append_assoc (List.takeWhile _ _),
          List.takeWhile_append_dropWhile, List.append_assoc]
      rw [hsplit, List.getElem?_append_right (by omega), List.getElem?_append_left (by omega)]
        at htoken
      exact List.mem_of_getElem? htoken
    have hstart := List.mem_takeWhile_imp hmem
    have hend := hadvance.ahead_not_isEnd ((List.takeWhile_subset _) hmem)
    rw [restarts, hend, Bool.or_false]
    simpa using hstart

end Cursor

/-! ### Recovery -/

namespace Reader

/-- **Reading goes on at the first declaration after the token of an error.**

Let a declaration fail in whatever state a reader of some tokens can come to, at the top level or
in a block.  Its error is found at the token before which the cursor is left.  Nothing is returned,
the tokens stay as they are, and reading goes on at the first token after this one with which a
declaration can start, or at the end; if the error was found at the end, it stays there.  That is
the first such token from the one of the error on, unless a declaration starts with the token of
the error itself. -/
theorem resumes_after_error (stream : TokenStream) {s t : ReaderState} {e : SyntaxError}
    {fuel : Nat} (hs : (ReaderState.ofStream stream).Leads s)
    (herror : stmtAt fuel .declaration s = .error e t) :
    let tokens := t.cursor.tokens
    let index := t.cursor.position
    let next := (recover (stmtAt fuel .declaration) s).2.cursor
    tokens[index]? = some e.token ∧ e.span = e.token.span ∧ s.cursor.position ≤ index ∧
    (recover (stmtAt fuel .declaration) s).1 = none ∧ next.tokens = tokens ∧
    FirstRestart tokens (if e.token.isEnd then index else index + 1) next.position ∧
    (FirstRestart tokens index next.position ↔ startsDeclaration e.token = false) := by
  intro tokens index next
  have hplaced : s.cursor.Placed := (placed_ofStream stream).reaches hs.reaches
  have hrun := accounts_stmtAt coverClosed_true fuel .declaration s
    (ReaderState.accountable_of_placed hplaced)
  rw [herror] at hrun
  obtain ⟨hle, ht, htoken, hspan⟩ : s.cursor.position ≤ t.cursor.position ∧
      t.Accountable (fun _ => True) ∧ e.token = t.cursor.here ∧ e.span = t.cursor.here.span := by
    cases hrun with
    | error hle ht he => exact ⟨hle, ht, he⟩
  have hrecover : recover (stmtAt fuel .declaration) s = (none, resume (t.report e)) := by
    rw [recover, herror]
  have hnext : next = t.cursor.skipTo startsDeclaration := by
    simp only [next, hrecover]
    rfl
  have hindex : tokens[index]? = some e.token := by
    rw [htoken]
    exact Cursor.getElem?_position _
  have hfirst : FirstRestart tokens (if e.token.isEnd then index else index + 1) next.position := by
    rw [htoken, ← Cursor.position_advance ht.placed, hnext]
    exact Cursor.firstRestart_skipTo ht.placed
  refine ⟨hindex, ?_, hle, ?_, ?_, hfirst, hfirst.from_iff hindex⟩
  · rw [hspan, htoken]
  · rw [hrecover]
  · rw [hnext]
    exact Cursor.tokens_skipTo _ _

/-- In `var x = ; var y = 2` the first declaration fails at the semicolon, the fourth token, and
reading goes on at the token after it. -/
theorem resumes_after_error_semicolon :
    let s := ReaderState.ofStream (Frontend.lex "m" "var x = ; var y = 2").1
    ∃ e t, stmtAt 8 .declaration s = .error e t ∧ t.cursor.position = 3 ∧ e.token.lexeme = ";" ∧
      FirstRestart t.cursor.tokens 3 4 := by
  have hlex := Lexer.tokenize_eq_within 20 (l := .ofText "m" "var x = ; var y = 2") (by decide)
  intro s
  have hposition : (match stmtAt 8 .declaration s with
      | .ok _ _ => false
      | .error e t => t.cursor.position == 3 && e.token.lexeme == ";" &&
        (recover (stmtAt 8 .declaration) s).2.cursor.position == 4 &&
        !startsDeclaration e.token) = true := by
    simp only [s, Frontend.lex, hlex]
    decide +kernel
  cases hrun : stmtAt 8 .declaration s with
  | ok stmt t =>
    rw [hrun] at hposition
    cases hposition
  | error e t =>
    rw [hrun] at hposition
    simp only [Bool.and_eq_true, beq_iff_eq, Bool.not_eq_true'] at hposition
    obtain ⟨⟨⟨hindex, hlexeme⟩, hnext⟩, hstarts⟩ := hposition
    obtain ⟨-, -, -, -, -, -, hfirst⟩ := resumes_after_error _ (.refl _) hrun
    rw [hindex, hnext] at hfirst
    exact ⟨e, t, rfl, hindex, hlexeme, hfirst.mpr hstarts⟩

/-- A declaration that starts with the token of an error is not read.  In `var x =`, a line break
and `var y = 2` the value of `x` is missing at the second `var`, where a declaration could start;
but reading goes on at the end of the file, and no statement is returned. -/
theorem passes_declaration_at_error :
    let s := ReaderState.ofStream (Frontend.lex "t.ktpp" "var x =\nvar y = 2").1
    (∃ e t, stmtAt s.cursor.remaining .declaration s = .error e t ∧
      s.cursor.position < t.cursor.position ∧
      t.cursor.tokens[t.cursor.position]? = some e.token ∧ startsDeclaration e.token = true ∧
      ¬ FirstRestart t.cursor.tokens t.cursor.position (declaration s).2.cursor.position) ∧
    (parse s).1 = [] := by
  have hlex := Lexer.tokenize_eq_within 20 (l := .ofText "t.ktpp" "var x =\nvar y = 2") (by decide)
  intro s
  have hempty : (parse s).1.length = 0 := by
    simp only [s, Frontend.lex, hlex]
    decide +kernel
  let found := stmtAt s.cursor.remaining .declaration s
  have herror : (fault? found).any (fun e =>
      decide (s.cursor.position < (endState found).cursor.position) &&
      decide ((endState found).cursor.tokens[(endState found).cursor.position]? = some e.token) &&
      startsDeclaration e.token &&
      decide ((endState found).cursor.position < (declaration s).2.cursor.position)) = true := by
    simp only [found, s, Frontend.lex, hlex]
    decide +kernel
  refine ⟨?_, List.length_eq_zero_iff.mp hempty⟩
  cases hrun : found with
  | ok stmt t =>
    rw [hrun] at herror
    cases herror
  | error e t =>
    rw [hrun] at herror
    simp only [fault?_error, Option.any_some, Bool.and_eq_true, decide_eq_true_eq] at herror
    obtain ⟨⟨⟨hmoved, htoken⟩, hstarts⟩, hpassed⟩ := herror
    refine ⟨e, t, hrun, hmoved, htoken, hstarts, fun hfirst => ?_⟩
    have hskipped := hfirst.passed _ _ (Nat.le_refl _) hpassed htoken
    rw [restarts, hstarts] at hskipped
    cases hskipped

end Reader
end CurlyScript
