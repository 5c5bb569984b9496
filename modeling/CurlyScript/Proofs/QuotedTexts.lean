import CurlyScript.Proofs.Places
import CurlyScript.Proofs.Relexing

/-!
# Quoted texts

The contents of a quoted text are kept as they are written.  A quote ends them unless a backslash
stands before it, and that backslash must not be the second character of a pair itself.  So the
contents are cut into units, read from the left: a backslash with the character after it, or one
other character that is no quote.  A quoted text is found exactly where such contents stand between
two quotes, and where no contents of this form come to a quote the text is never closed.

## Main definitions

* `Text.Escaped` — contents of a quoted text, unit by unit.

## Main results

* `stringContents_eq_some_iff` — what is found before the closing quote.
* `Frontend.lex_quoted` — quoted texts are exactly the escaped contents between two quotes.
-/

namespace CurlyScript

/-- The contents of a quoted text: units one after the other, each of which is a character other
than the quote and the backslash, or a backslash and any character. -/
inductive Text.Escaped : List Char → Prop
  /-- There may be no unit at all. -/
  | nil : Escaped []
  /-- A character that stands for itself. -/
  | plain {c : Char} {cs : List Char} (hquote : c ≠ '"') (hescape : c ≠ '\\')
    (hcs : Escaped cs) : Escaped (c :: cs)
  /-- A backslash takes the character after it along. -/
  | pair (c : Char) {cs : List Char} (hcs : Escaped cs) : Escaped ('\\' :: c :: cs)

open Text (Escaped)

/-! ### Contents -/

/-- What is found before a closing quote is escaped. -/
theorem escaped_of_stringContents {cs contents : List Char}
    (h : stringContents cs = some contents) : Escaped contents := by
  fun_induction stringContents cs generalizing contents with
  | case1 => cases h
  | case2 cs =>
    cases h
    exact .nil
  | case3 c cs ih =>
    obtain ⟨more, hmore, rfl⟩ := Option.map_eq_some_iff.mp h
    exact .pair c (ih hmore)
  | case4 c cs hquote hescape ih =>
    obtain ⟨more, hmore, rfl⟩ := Option.map_eq_some_iff.mp h
    -- a lone backslash at the end of the text is followed by no closing quote
    have hplain : c ≠ '\\' := by
      intro hc
      cases cs with
      | nil => cases hmore
      | cons d ds => exact hescape d ds hc rfl
    exact .plain hquote hplain (ih hmore)

/-- Escaped contents are found up to the quote after them. -/
theorem stringContents_of_escaped {contents : List Char} (h : Escaped contents) (r : List Char) :
    stringContents (contents ++ '"' :: r) = some contents := by
  induction h with
  | nil => rfl
  | plain hquote hescape _ ih =>
    rw [List.cons_append, stringContents_cons hquote hescape, ih, Option.map_some]
  | pair c _ ih =>
    rw [List.cons_append, List.cons_append, stringContents, ih, Option.map_some]

/-- The contents that are found are the escaped ones with a quote after them. -/
theorem stringContents_eq_some_iff {cs contents : List Char} :
    stringContents cs = some contents ↔ Escaped contents ∧ contents ++ ['"'] <+: cs := by
  constructor
  · intro h
    exact ⟨escaped_of_stringContents h, stringContents_ahead h⟩
  · rintro ⟨hescaped, r, rfl⟩
    rw [List.append_assoc]
    exact stringContents_of_escaped hescaped r

theorem stringContents_eq_none_iff {cs : List Char} :
    stringContents cs = none ↔ ∀ contents, Escaped contents → ¬ contents ++ ['"'] <+: cs := by
  rw [Option.eq_none_iff_forall_ne_some]
  constructor
  · intro h contents hescaped hahead
    exact h contents (stringContents_eq_some_iff.mpr ⟨hescaped, hahead⟩)
  · intro h contents hcontents
    obtain ⟨hescaped, hahead⟩ := stringContents_eq_some_iff.mp hcontents
    exact h contents hescaped hahead

/-! ### Scans -/

/-- A quote begins a quoted text and no symbol. -/
theorem scan_quote (cs : List Char) : scan '"' cs = scanString cs := by
  have hsymbol : longestSymbol ('"' :: cs) = none := by
    rw [longestSymbol, extendSymbol]
    exact if_neg (by decide)
  simp only [scan, hsymbol, if_true]

/-- A quoted text comes from a quote, escaped contents and a quote. -/
theorem exists_contents_of_scan {c : Char} {cs : List Char} {literal : Option Literal}
    (h : (scan c cs).outcome = .ok (.literal .string, literal)) :
    ∃ contents, Escaped contents ∧ literal = some (.str (String.ofList contents)) ∧
      (scan c cs).taken = '"' :: contents ++ ['"'] := by
  rcases scan_cases c cs with ⟨symbol, kind, hsymbol, hscan⟩ | ⟨rfl, hscan⟩ | ⟨-, hscan⟩ |
    ⟨-, hscan⟩ | hscan
  · -- a symbol is no literal
    rw [hscan] at h
    cases h
    rcases kind_of_longestSymbol hsymbol with ⟨_, hkind⟩ | ⟨_, hkind⟩ <;> cases hkind
  · rw [hscan] at h ⊢
    obtain ⟨contents, hcontents⟩ := contents_of_scanString h
    simp only [scanString, hcontents] at h ⊢
    cases h
    exact ⟨contents, escaped_of_stringContents hcontents, rfl, rfl⟩
  · rw [hscan] at h
    rcases kind_of_scanWord h with ⟨_, hkind⟩ | hkind <;> cases hkind
  · rw [hscan] at h
    obtain ⟨n, -, -, -, hkind, -⟩ := exists_value_of_scanNumber h
    unfold Numeral.kind at hkind
    split at hkind <;> cases hkind
  · rw [hscan] at h
    cases h

/-- A quoted text that is never closed goes on to the end of the text. -/
theorem scan_open {rest : List Char} (h : stringContents rest = none) :
    scan '"' rest = { taken := '"' :: rest, outcome := .error .unterminatedString } := by
  simp only [scan_quote, scanString, h]

/-- Escaped contents between two quotes are the lexeme of a quoted text with that value. -/
theorem scanned_of_escaped {s : String} (h : Escaped s.toList) (span : Span) :
    Token.Scanned ⟨.literal .string, "\"" ++ s ++ "\"", span, some (.str s)⟩ := by
  refine ⟨'"', s.toList ++ ['"'], ?_, ?_⟩
  · rw [scan_quote, scanString, stringContents_of_escaped h]
    simp
  · rw [scan_quote, scanString, stringContents_of_escaped h, ← String.toList_inj]
    simp

/-- The lexeme of a quoted text is its value between two quotes, and that is escaped. -/
theorem Lexer.exists_escaped_of_mem {file text : String} {t : Token}
    (ht : t ∈ (ofText file text).collect.1) (hkind : t.kind = .literal .string) :
    ∃ s : String, t.literal = some (.str s) ∧ Escaped s.toList ∧
      t.lexeme = "\"" ++ s ++ "\"" := by
  obtain ⟨before, c, cs, -, houtcome, hlexeme, -⟩ := exists_looksAt_of_mem ht
  rw [hkind] at houtcome
  obtain ⟨contents, hescaped, hliteral, htaken⟩ := exists_contents_of_scan houtcome
  refine ⟨String.ofList contents, hliteral, ?_, ?_⟩
  · rw [String.toList_ofList]
    exact hescaped
  · rw [hlexeme, htaken, ← String.toList_inj]
    simp

/-! ### Whole texts -/

namespace Frontend

/-- **Quoted texts are exactly the escaped contents between two quotes.**

A text between two quotes lexes, without an error, to one quoted text with that text as its value
exactly if it is escaped.  In any text, the value of a quoted text is escaped and its lexeme is the
value between two quotes.  Where a lexer comes to a quote and no escaped contents are followed by
another, the text has an error: it is that the quoted text is never closed, and it is reported from
the quote on. -/
theorem lex_quoted (file : String) :
    (∀ s : String,
      ((lex file ("\"" ++ s ++ "\"")).1.hadError = false ∧
        ∃ t, (lex file ("\"" ++ s ++ "\"")).1.withoutEnd = [t] ∧ t.kind = .literal .string ∧
          t.literal = some (.str s) ∧ t.lexeme = "\"" ++ s ++ "\"") ↔
      Escaped s.toList) ∧
    (∀ text : String, ∀ t ∈ (lex file text).1.tokens, t.kind = .literal .string →
      ∃ s : String, t.literal = some (.str s) ∧ Escaped s.toList ∧
        t.lexeme = "\"" ++ s ++ "\"") ∧
    ∀ (text : String) (before rest : List Char), Lexer.LooksAt file text before ('"' :: rest) →
      (∀ contents, Escaped contents → ¬ contents ++ ['"'] <+: rest) →
      (lex file text).1.hadError = true ∧
        (Lexer.ofText file text).tokenize.2.filter LexerEvent.isFailure =
          [.failed .unterminatedString (Lexer.spanBehind file before ('"' :: rest))] ∧
        (findings (lex file text).2).filter Finding.isFault =
          [⟨.error, "lexer", "Unterminated string",
            Lexer.spanBehind file before ('"' :: rest)⟩] := by
  have hwithout (text : String) :
      (lex file text).1.withoutEnd = (Lexer.ofText file text).collect.1 :=
    Lexer.withoutEnd_tokenize _
  refine ⟨?_, ?_, ?_⟩
  · intro s
    constructor
    · rintro ⟨-, t, htokens, hkind, hliteral, -⟩
      rw [hwithout] at htokens
      have ht := List.mem_singleton_self t
      rw [← htokens] at ht
      obtain ⟨s', hliteral', hescaped, -⟩ := Lexer.exists_escaped_of_mem ht hkind
      cases hliteral.symm.trans hliteral'
      exact hescaped
    · intro hescaped
      -- the text is the lexeme of the token that it should have
      obtain ⟨hcontent, hclean⟩ :=
        Lexer.collect_lexeme file (scanned_of_escaped hescaped (Lexer.spanBehind file [] []))
      obtain ⟨t, htokens, ht⟩ := List.map_eq_singleton_iff.mp hcontent
      simp only [Token.content, Prod.mk.injEq] at ht
      exact ⟨hclean, t, (hwithout _).trans htokens, ht.1, ht.2.2, ht.2.1⟩
  · intro text t ht hkind
    have hend : t.isEnd = false := by
      rw [Token.isEnd, hkind]
      rfl
    exact Lexer.exists_escaped_of_mem (Lexer.mem_collect_of_mem_tokens ht hend) hkind
  · intro text before rest hlooks hopen
    have hscan := scan_open (stringContents_eq_none_iff.mpr hopen)
    have hcause : (scan '"' rest).outcome = .error .unterminatedString := by rw [hscan]
    obtain ⟨hfailures, herror⟩ := hlooks.failures_eq hcause
    have hfaults := hlooks.faults_eq hcause
    rw [hscan] at hfailures hfaults
    exact ⟨herror, hfailures, hfaults⟩

/-- A quote behind a backslash closes nothing. -/
theorem lex_quoted_open :
    (lex "t" "\"a\\\"").1.hadError = true ∧
      (Lexer.ofText "t" "\"a\\\"").tokenize.2.filter LexerEvent.isFailure =
        [.failed .unterminatedString (Lexer.spanBehind "t" [] ['"', 'a', '\\', '"'])] ∧
      (findings (lex "t" "\"a\\\"").2).filter Finding.isFault =
        [⟨.error, "lexer", "Unterminated string",
          Lexer.spanBehind "t" [] ['"', 'a', '\\', '"']⟩] := by
  have hlooks : Lexer.LooksAt "t" "\"a\\\"" [] ['"', 'a', '\\', '"'] := Lexer.looksAt_start rfl rfl
  have hnone : stringContents ['a', '\\', '"'] = none := rfl
  exact (lex_quoted "t").2.2 _ _ _ hlooks (stringContents_eq_none_iff.mp hnone)

end Frontend
end CurlyScript
