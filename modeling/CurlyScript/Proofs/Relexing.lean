import CurlyScript.Proofs.Concatenation
import CurlyScript.Proofs.Sameness

/-!
# Lexing the lexemes again

A lexeme is recognised by itself just as it was in the text around it: the scan that took it looks
at nothing behind it that could change what was found.  Since no lexeme begins with a blank and no
scan reaches across one, lexemes that are written one after the other with a space between them
are found again, each with its kind and its value.

## Main definitions

* `Token.content` — what a token is, apart from its place.

## Main results

* `Token.Scanned.scan_lexeme` — the lexeme of a token, scanned by itself, is that token.
* `Lexer.collect_joined` — the lexemes of tokens, joined by spaces, have the contents of the tokens.
* `Frontend.lex_lexemes` — the lexemes of a text lex to the same tokens as the text.
-/

namespace CurlyScript

/-! ### One lexeme -/

/-- Only what is no blank begins a token. -/
theorem isBlank_of_scan {c : Char} {cs : List Char} {found : Kind × Option Literal}
    (h : (scan c cs).outcome = .ok found) : Text.isBlank c = false := by
  by_contra hblank
  rw [Bool.not_eq_false] at hblank
  have hsymbol : longestSymbol (c :: cs) = none :=
    (longestSymbol_before_blank hblank [] cs).trans rfl
  have hquote : c ≠ '"' := ne_of_isBlank hblank rfl
  -- every character that starts a word or a number may also stand inside a word
  have hpart := isWordPart_of_isBlank hblank
  rw [isWordPart, Bool.or_eq_false_iff] at hpart
  have hstart : ¬ isWordStart c = true := by simp [hpart.1]
  have hdigit : ¬ isDecimalDigit c = true := by simp [hpart.2]
  simp only [scan, hsymbol, if_neg hquote, if_neg hstart, if_neg hdigit] at h
  cases h

/-- A token is what its lexeme alone is scanned to, and the scan takes the whole lexeme. -/
theorem Token.Scanned.scan_lexeme {t : Token} (h : t.Scanned) :
    ∃ c cs, t.lexeme.toList = c :: cs ∧ (scan c cs).taken = c :: cs ∧
      (scan c cs).outcome = .ok (t.kind, t.literal) := by
  obtain ⟨c, cs, houtcome, hlexeme⟩ := h
  obtain ⟨rest, hrest⟩ := scan_taken_ahead c cs
  cases htaken : (scan c cs).taken with
  | nil => exact absurd htaken (scan_taken_ne_nil c cs)
  | cons d taken =>
    rw [htaken, List.cons_append] at hrest
    obtain ⟨rfl, rfl⟩ := List.cons.inj hrest
    have hcut : scan d taken = scan d (taken ++ rest) :=
      scan_cut houtcome (htaken ▸ List.prefix_rfl)
    refine ⟨d, taken, ?_, ?_, ?_⟩
    · rw [hlexeme, htaken, String.toList_ofList]
    · rw [hcut, htaken]
    · rw [hcut, houtcome]

/-! ### What a token is -/

/-- The kind, the lexeme and the value of a token. -/
def Token.content (t : Token) : Kind × String × Option Literal := (t.kind, t.lexeme, t.literal)

/-- Tokens with the same contents are the same, as long as their values are numbers. -/
theorem sameList_of_content {as bs : List Token}
    (hcontents : as.map Token.content = bs.map Token.content)
    (hsame : ∀ b ∈ bs, b.same b = true) : sameList Token.same as bs = true := by
  induction as generalizing bs with
  | nil =>
    rw [List.map_nil, eq_comm, List.map_eq_nil_iff] at hcontents
    rw [hcontents, sameList_nil]
  | cons a as ih =>
    cases bs with
    | nil => cases hcontents
    | cons b bs =>
      rw [List.map_cons, List.map_cons, List.cons.injEq] at hcontents
      obtain ⟨hhead, htail⟩ := hcontents
      obtain ⟨hb, hbs⟩ := List.forall_mem_cons.mp hsame
      have hab : a.same b = true := by
        simp only [Token.content, Prod.mk.injEq] at hhead
        rw [Token.same, hhead.1, hhead.2.1, hhead.2.2]
        exact hb
      rw [sameList_cons, hab, Bool.true_and]
      exact ih htail hbs

/-! ### Lexemes with spaces between them -/

namespace Lexer

/-- A lexer on the lexeme of a token hands out that token and is done. -/
theorem collect_lexeme (file : String) {t : Token} (h : t.Scanned) :
    (ofText file t.lexeme).collect.1.map Token.content = [t.content] ∧
      (ofText file t.lexeme).collect.2.2.failed = false := by
  obtain ⟨c, cs, htext, htaken, houtcome⟩ := h.scan_lexeme
  have hblank : ¬ Text.isBlank c = true := by simp [isBlank_of_scan houtcome]
  have hskip : (ofText file t.lexeme).skipBlanks = ofText file t.lexeme := by
    simp only [skipBlanks, past, ofText, htext, List.takeWhile_cons_of_neg hblank, Mark.after_nil,
      List.length_nil, List.drop_zero]
  have hahead : (ofText file t.lexeme).skipBlanks.rest = c :: cs := by
    rw [hskip]
    exact htext
  have hnext : (ofText file t.lexeme).next = (ofText file t.lexeme).deliver (scan c cs) := by
    rw [next_of_cons rfl hahead, hskip]
  obtain ⟨hitem, hafter⟩ := deliver_of_ok (l := ofText file t.lexeme) houtcome
  rw [← hnext] at hitem hafter
  -- nothing is left behind the lexeme
  have hrest : (ofText file t.lexeme).next.after.skipBlanks.rest = [] := by
    rw [hafter]
    simp only [skipBlanks, past, ofText, htext, htaken, List.drop_length, List.drop_nil]
  have hdone := next_of_blank (l := (ofText file t.lexeme).next.after) (by rw [hafter]; rfl) hrest
  have hlexeme : String.ofList (scan c cs).taken = t.lexeme := by
    rw [htaken, ← htext, String.ofList_toList]
  have hitem' : (ofText file t.lexeme).next.after.next.item = none := by rw [hdone]
  rw [collect_of_token hitem, collect_of_none hitem', hdone, hafter]
  refine ⟨?_, rfl⟩
  simp only [List.map_cons, List.map_nil, Token.content, hlexeme]

/-- The lexemes of tokens, joined by spaces, have the contents of the tokens. -/
theorem collect_joined (file : String) {ts : List Token} (h : ∀ t ∈ ts, t.Scanned) :
    (ofText file (" ".intercalate (ts.map Token.lexeme))).collect.1.map Token.content =
        ts.map Token.content ∧
      (ofText file (" ".intercalate (ts.map Token.lexeme))).collect.2.2.failed = false := by
  induction ts with
  | nil =>
    have hnext : (ofText file "").next = { item := none, events := [], after := ofText file "" } :=
      next_of_blank rfl rfl
    rw [List.map_nil, String.intercalate_nil, collect_of_none (by rw [hnext]), hnext]
    exact ⟨rfl, rfl⟩
  | cons t ts ih =>
    obtain ⟨ht, hts⟩ := List.forall_mem_cons.mp h
    cases ts with
    | nil =>
      rw [List.map_cons, List.map_nil, String.intercalate_singleton]
      exact collect_lexeme file ht
    | cons u ts =>
      -- the first lexeme stands before the space that all the others come after
      obtain ⟨hcontent, hclean⟩ := collect_lexeme file ht
      obtain ⟨hcontents, hcleans⟩ := ih hts
      have hspace : " " = String.singleton ' ' := rfl
      rw [List.map_cons, List.map_cons, String.intercalate_cons_cons]
      rw [List.map_cons] at hcontents hcleans
      generalize " ".intercalate (u.lexeme :: ts.map Token.lexeme) = others at hcontents hcleans ⊢
      rw [hspace, collect_append_blank rfl hclean]
      refine ⟨?_, hcleans⟩
      simp only [List.map_append, List.map_map, hcontent]
      exact congrArg (t.content :: ·) hcontents

end Lexer

/-! ### The lexemes of a text -/

namespace Frontend

/-- **The lexemes of a text lex to the same tokens as the text.**

Let the lexemes of the tokens of a text, up to the end of the file, be written one after the other
with single spaces between them.  That text has no lexical error, and its tokens, with the end of
the file, are the same in number, order, kind, lexeme and value.  This is so for a text without
lexical errors, and also for the tokens before an error. -/
theorem lex_lexemes (file file' text : String) :
    let joined := " ".intercalate ((lex file text).1.withoutEnd.map Token.lexeme)
    (lex file' joined).1.hadError = false ∧
    (lex file' joined).1.tokens.map Token.content = (lex file text).1.tokens.map Token.content ∧
    sameList Token.same (lex file' joined).1.tokens (lex file text).1.tokens = true := by
  have htiled := Lexer.tiled_collect (Lexer.at_ofText file text) rfl
  have hwithout : (lex file text).1.withoutEnd = (Lexer.ofText file text).collect.1 :=
    Lexer.withoutEnd_tokenize _
  have htokens (file text : String) : (lex file text).1.tokens =
      (Lexer.ofText file text).collect.1 ++ [(Lexer.ofText file text).collect.2.2.endToken] := rfl
  intro joined
  obtain ⟨hcontents, hclean⟩ := Lexer.collect_joined file' htiled.scanned
  rw [← hwithout] at hcontents hclean
  have hall : (lex file' joined).1.tokens.map Token.content =
      (lex file text).1.tokens.map Token.content := by
    rw [htokens, htokens, List.map_append, List.map_append, hcontents, hwithout]
    rfl
  refine ⟨hclean, hall, sameList_of_content hall ?_⟩
  intro t ht
  rw [htokens] at ht
  rcases List.mem_append.mp ht with ht | ht
  · exact (htiled.scanned t ht).regular.same
  · rw [List.mem_singleton.mp ht]
    exact Token.same_self rfl

end Frontend
end CurlyScript
