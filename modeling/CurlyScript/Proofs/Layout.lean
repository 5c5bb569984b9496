import CurlyScript.Proofs.InStep
import CurlyScript.Proofs.Tiling

/-!
# Layout does not matter

Where its tokens stand makes no difference to the parser.  Two lists of tokens that are the same
up to the place are parsed to statements that are the same up to the place, with the same errors
in the same order; so blanks and line breaks between the tokens of a text change nothing but the
spans.

## Main definitions

* `ReaderEvent.cause?`, `ReaderState.causes` — the causes of the errors that were raised.

## Main results

* `Pairing.abreast_ofStream` — two runs on alike tokens begin abreast.
* `Pairing.parse_alike` — and parse them to alike statements.
* `Reader.parse_same_of_same` — sameness up to the place goes from the tokens to the statements.
-/

namespace CurlyScript

open Reader

/-- The cause of an error that was raised, be it kept quiet. -/
def ReaderEvent.cause? : ReaderEvent → Option Cause
  | .reported e => some e.cause
  | .suppressed e => some e.cause
  | _ => none

/-- The causes of all errors that were raised, in order. -/
def ReaderState.causes (s : ReaderState) : List Cause := s.log.reverse.filterMap ReaderEvent.cause?

/-! ### Events -/

section Events

variable {l : Likeness}

theorem Like.cause_eq {a b : SyntaxError} (h : Like l a b) : a.cause = b.cause := by
  cases l with
  | identical => exact congrArg SyntaxError.cause h
  | upToPlace =>
    have hsame : a.same b = true := h
    rw [SyntaxError.same, Bool.and_eq_true, beq_iff_eq] at hsame
    exact hsame.1

/-- Alike events are errors with one cause, or none is an error. -/
theorem Like.cause?_eq {e e' : ReaderEvent} (h : Like l e e') : e.cause? = e'.cause? := by
  cases l with
  | identical => exact congrArg ReaderEvent.cause? h
  | upToPlace =>
    have hsame : e.same e' = true := h
    unfold ReaderEvent.same at hsame
    split at hsame
    case h_1 => exact congrArg some (Like.cause_eq (l := .upToPlace) hsame)
    case h_2 => exact congrArg some (Like.cause_eq (l := .upToPlace) hsame)
    case h_12 => cases hsame
    all_goals rfl

theorem causes_eq {s s' : ReaderState} (h : Like l s.log s'.log) : s.causes = s'.causes := by
  have hfilter : ∀ {es es' : List ReaderEvent}, Like l es es' →
      es.filterMap ReaderEvent.cause? = es'.filterMap ReaderEvent.cause? := by
    intro es
    induction es with
    | nil =>
      intro es' hes
      obtain ⟨-, rfl⟩ | ⟨_, _, _, _, hnil, -⟩ := hes.list_cases
      · rfl
      · cases hnil
    | cons e es ih =>
      intro es' hes
      obtain ⟨hnil, -⟩ | ⟨_, e', _, es', heq, rfl, he, hrest⟩ := hes.list_cases
      · cases hnil
      · cases heq
        rw [List.filterMap_cons, List.filterMap_cons, he.cause?_eq, ih hrest]
  exact hfilter (like_reverse h)

end Events

/-! ### The start of a run -/

section Start

variable {l : Likeness} {as bs : List Token}

theorem like_getLast? (h : Like l as bs) : Like l as.getLast? bs.getLast? := by
  rw [← List.head?_reverse, ← List.head?_reverse]
  obtain ⟨has, hbs⟩ | ⟨a, b, _, _, has, hbs, hab, -⟩ := (like_reverse h).list_cases
  · rw [has, hbs]
    exact like_none
  · rw [has, hbs]
    exact like_some.mpr hab

theorem like_missingEnd (h : Like l as bs) : Like l (missingEnd as) (missingEnd bs) := by
  unfold missingEnd
  obtain ⟨has, hbs⟩ | ⟨a, b, has, hbs, hab⟩ := (like_getLast? h).option_cases
  · rw [has, hbs]
    exact like_made fun _ => rfl
  · rw [has, hbs]
    exact like_made fun hl => congrArg Span.atEnd (hab.span_eq hl)

theorem like_withEnd (h : Like l as bs) : Like l (withEnd as) (withEnd bs) := by
  have hlast : (as.getLast?.map Token.isEnd).getD false =
      (bs.getLast?.map Token.isEnd).getD false := by
    obtain ⟨has, hbs⟩ | ⟨a, b, has, hbs, hab⟩ := (like_getLast? h).option_cases
    · rw [has, hbs]
    · rw [has, hbs, Option.map_some, Option.map_some, Token.isEnd, Token.isEnd, hab.kind_eq]
  unfold withEnd
  rw [hlast]
  split
  · exact h
  · exact h.append (like_cons.mpr ⟨like_missingEnd h, like_nil⟩)

/-- Cursors before alike tokens have alike tokens ahead, and alike ends. -/
theorem like_ofTokens (h : Like l as bs) :
    Like l (Cursor.ofTokens as).ahead (Cursor.ofTokens bs).ahead ∧
      Like l (Cursor.ofTokens as).stop (Cursor.ofTokens bs).stop := by
  have hkind : ∀ a b : Token, a.kind = b.kind → (!a.isEnd) = !b.isEnd := by
    intro a b hab
    rw [Token.isEnd, Token.isEnd, hab]
  obtain ⟨htake, hdrop⟩ := Pairing.like_parted (like_withEnd h) hkind
  unfold Cursor.ofTokens
  rw [List.span_eq_takeWhile_dropWhile, List.span_eq_takeWhile_dropWhile]
  obtain ⟨has, hbs⟩ | ⟨a, b, _, _, has, hbs, hab, -⟩ := hdrop.list_cases
  · rw [has, hbs]
    exact ⟨htake, like_missingEnd h⟩
  · rw [has, hbs]
    exact ⟨htake, hab⟩

end Start

namespace Pairing

variable {l : Likeness} {a b : TokenStream}

/-- Two runs on alike tokens begin abreast. -/
theorem abreast_ofStream (htokens : Like l a.tokens b.tokens) (herror : a.hadError = b.hadError) :
    (⟨l, [], []⟩ : Pairing).Abreast (.ofStream a) (.ofStream b) where
  placed := placed_ofStream a
  placed' := placed_ofStream b
  ahead := (like_ofTokens htokens).1
  stop := (like_ofTokens htokens).2
  hadError_eq := herror
  quiet_eq := herror
  exists_said := ⟨[], [], rfl, rfl, like_nil⟩

/-- Alike tokens are parsed to alike statements, and alike events are noted. -/
theorem parse_alike (htokens : Like l a.tokens b.tokens) (herror : a.hadError = b.hadError) :
    Like l (parse (.ofStream a)).1 (parse (.ofStream b)).1 ∧
      (⟨l, [], []⟩ : Pairing).Abreast (parse (.ofStream a)).2 (parse (.ofStream b)).2 := by
  have hstart := abreast_ofStream htokens herror
  obtain ⟨hstmts, hfinal⟩ :=
    abreast_declarations (ReaderState.ofStream b).cursor.remaining hstart
  unfold parse
  rw [hstart.remaining_eq]
  exact ⟨hstmts, hfinal.note (like_finished.mpr ⟨hstmts.length_eq, hfinal.hadError_eq⟩)⟩

end Pairing

namespace Reader

/-- **Layout does not matter to the parser.**

Two streams of tokens that are the same up to the place, and in both or none of which the text had
an error, are parsed to statements that are the same up to the place.  The flag is the same, the
same causes are raised in the same order, and all that is noted on the way is the same up to the
place.  So any two texts without lexical errors whose tokens are the same up to the place have the
same programs. -/
theorem parse_same_of_same :
    (∀ a b : TokenStream, a.hadError = b.hadError →
      sameList Token.same a.tokens b.tokens = true →
      sameStmts (parse (.ofStream a)).1 (parse (.ofStream b)).1 = true ∧
      (parse (.ofStream a)).2.hadError = (parse (.ofStream b)).2.hadError ∧
      (parse (.ofStream a)).2.causes = (parse (.ofStream b)).2.causes ∧
      sameList ReaderEvent.same (parse (.ofStream a)).2.log (parse (.ofStream b)).2.log = true) ∧
    ∀ file file' text text' : String,
      (Frontend.lex file text).1.hadError = false →
      (Frontend.lex file' text').1.hadError = false →
      sameList Token.same (Frontend.lex file text).1.tokens (Frontend.lex file' text').1.tokens =
        true →
      (Frontend.parse file text).1.same (Frontend.parse file' text').1 = true := by
  have hstreams : ∀ a b : TokenStream, a.hadError = b.hadError →
      sameList Token.same a.tokens b.tokens = true →
      sameStmts (parse (.ofStream a)).1 (parse (.ofStream b)).1 = true ∧
      (parse (.ofStream a)).2.hadError = (parse (.ofStream b)).2.hadError ∧
      (parse (.ofStream a)).2.causes = (parse (.ofStream b)).2.causes ∧
      sameList ReaderEvent.same (parse (.ofStream a)).2.log (parse (.ofStream b)).2.log = true := by
    intro a b herror htokens
    obtain ⟨hstmts, hfinal⟩ := Pairing.parse_alike (l := .upToPlace) htokens herror
    obtain ⟨said, said', hlog, hlog', hsaid⟩ := hfinal.exists_said
    have hevents : Like .upToPlace (parse (.ofStream a)).2.log (parse (.ofStream b)).2.log := by
      rw [hlog, hlog', List.append_nil, List.append_nil]
      exact hsaid
    refine ⟨?_, hfinal.hadError_eq, causes_eq hevents, hevents⟩
    rw [sameStmts_eq]
    exact hstmts
  refine ⟨hstreams, ?_⟩
  intro file file' text text' herror herror' htokens
  obtain ⟨hstmts, hflag, -⟩ := hstreams _ _ (herror.trans herror'.symm) htokens
  have hsame : (Frontend.parse file text).1.same (Frontend.parse file' text').1 =
      (sameStmts (parse (.ofStream (Frontend.lex file text).1)).1
          (parse (.ofStream (Frontend.lex file' text').1)).1 &&
        (parse (.ofStream (Frontend.lex file text).1)).2.hadError ==
          (parse (.ofStream (Frontend.lex file' text').1)).2.hadError) := rfl
  rw [hsame, hstmts, hflag, beq_self_eq_true, Bool.and_true]

/-- A declaration with a shift that closes two lists, and a mark too many, on one line and on
four. -/
theorem parse_same_of_same_lines :
    (Frontend.lex "a" "var x: A<B<C>> =1;)").1.tokens ≠
      (Frontend.lex "a" "var x : A<B<C>>\n  = 1\n;\n)").1.tokens ∧
    (Frontend.parse "a" "var x: A<B<C>> =1;)").1.same
      (Frontend.parse "a" "var x : A<B<C>>\n  = 1\n;\n)").1 = true ∧
    (parse (.ofStream (Frontend.lex "a" "var x: A<B<C>> =1;)").1)).2.causes =
      [.expectedExpression] ∧
    (parse (.ofStream (Frontend.lex "a" "var x: A<B<C>> =1;)").1)).2.causes =
      (parse (.ofStream (Frontend.lex "a" "var x : A<B<C>>\n  = 1\n;\n)").1)).2.causes := by
  have hlex : ∀ text : String, text.toList.length < 30 → (Frontend.lex "a" text).1 =
      { tokens := (Lexer.collectWithin 30 (.ofText "a" text)).1 ++
          [(Lexer.collectWithin 30 (.ofText "a" text)).2.2.endToken]
        hadError := (Lexer.collectWithin 30 (.ofText "a" text)).2.2.failed } := by
    intro text h
    rw [← Lexer.collect_eq_collectWithin 30 h]
    rfl
  have hfirst := hlex "var x: A<B<C>> =1;)" (by decide)
  have hsecond := hlex "var x : A<B<C>>\n  = 1\n;\n)" (by decide)
  have hclean : (Frontend.lex "a" "var x: A<B<C>> =1;)").1.hadError = false := by
    rw [hfirst]
    decide +kernel
  have hclean' : (Frontend.lex "a" "var x : A<B<C>>\n  = 1\n;\n)").1.hadError = false := by
    rw [hsecond]
    decide +kernel
  have hsame : sameList Token.same (Frontend.lex "a" "var x: A<B<C>> =1;)").1.tokens
      (Frontend.lex "a" "var x : A<B<C>>\n  = 1\n;\n)").1.tokens = true := by
    rw [hfirst, hsecond]
    decide +kernel
  refine ⟨?_, parse_same_of_same.2 _ _ _ _ hclean hclean' hsame, ?_,
    (parse_same_of_same.1 _ _ (hclean.trans hclean'.symm) hsame).2.2.1⟩
  · rw [hfirst, hsecond]
    decide +kernel
  · rw [hfirst]
    decide +kernel

end Reader
end CurlyScript
