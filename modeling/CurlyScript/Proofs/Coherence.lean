import CurlyScript.Proofs.MaximalMunch
import CurlyScript.Proofs.Relexing
import CurlyScript.Proofs.Speculation

/-!
# Kind, lexeme and value of a token agree

A token says three times what it is: by its kind, by its lexeme and by its value.  The lexer takes
them from one scan, so that they agree: a reserved word is spelled as its kind is, a name is a word
that is not reserved and has itself as its value, and a number or a quoted text has a value of its
own type.  Whatever readers do to the tokens, the halves of a shift included, leaves it so, and
therefore a reader that has come to a literal always finds the value it looks for.

## Main definitions

* `Token.Coherent` — kind, lexeme and value agree.
* `Keyword.contentOf` — what a word is, apart from its place.

## Main results

* `Token.Scanned.coherent` — what a scan finds is coherent.
* `Lexer.collect_word` — a word is one token, a reserved word or a name.
* `Cursor.forall_of_reaches` — what is so of all tokens and of the halves of shifts stays so.
* `Frontend.lex_coherent` — the tokens of a text are coherent, and readers rely on it rightly.
-/

namespace CurlyScript

/-! ### Coherence -/

/-- The kind, the lexeme and the value of a token agree.  No token of a text is a truth value or a
bad token: truth values are written as reserved words. -/
def Token.Coherent (t : Token) : Prop :=
  match t.kind with
  | .operator _ | .keyword _ | .punctuation _ =>
    t.kind.lexeme? = some t.lexeme ∧ t.literal = none
  | .literal .identifier =>
    t.lexeme.toList ∈ Lexeme.words ∧ (∀ word : Keyword, word.lexeme ≠ t.lexeme) ∧
      t.literal = some (.str t.lexeme)
  | .literal .int => ∃ value, t.literal = some (.int value)
  | .literal .float => ∃ value, t.literal = some (.float value)
  | .literal .string => ∃ value, t.literal = some (.str value)
  | .literal .bool => False
  | .endOfFile => t.lexeme = "" ∧ t.literal = none
  | .bad => False

/-- A literal has a value. -/
theorem Token.Coherent.exists_literal {t : Token} (h : t.Coherent) {kind : LiteralKind}
    (hkind : t.kind = .literal kind) : ∃ value, t.literal = some value := by
  rw [Coherent, hkind] at h
  cases kind with
  | int => exact h.imp' _ fun _ => id
  | float => exact h.imp' _ fun _ => id
  | string => exact h.imp' _ fun _ => id
  | bool => exact h.elim
  | identifier => exact ⟨_, h.2.2⟩

/-- A token of a kind with a fixed spelling is nothing but that spelling. -/
theorem Token.Coherent.of_lexeme? {t : Token} (h : t.Coherent) {spelling : String}
    (hkind : t.kind.lexeme? = some spelling) : t.lexeme = spelling ∧ t.literal = none := by
  rw [Coherent] at h
  generalize t.kind = kind at h hkind
  cases kind with
  | operator | keyword | punctuation => exact ⟨Option.some.inj (h.1.symm.trans hkind), h.2⟩
  | literal | endOfFile | bad => cases hkind

theorem coherent_halfShift (t : Token) (skip : Nat) : (halfShift t skip).Coherent := ⟨rfl, rfl⟩

theorem coherent_endOfFile (span : Span) : (Token.endOfFile span).Coherent := ⟨rfl, rfl⟩

/-! ### Words -/

/-- A spelling is looked up to the reserved word that has it. -/
theorem Keyword.ofWord?_eq_some_iff {text : String} {word : Keyword} :
    Keyword.ofWord? text = some word ↔ word.lexeme = text := by
  constructor
  · intro h
    exact beq_iff_eq.mp (List.find?_some (p := fun word : Keyword => word.lexeme == text) h)
  · rintro rfl
    cases word <;> decide

theorem Keyword.ofWord?_eq_none_iff {text : String} :
    Keyword.ofWord? text = none ↔ ∀ word : Keyword, word.lexeme ≠ text := by
  rw [Option.eq_none_iff_forall_ne_some]
  exact forall_congr' fun word => not_congr ofWord?_eq_some_iff

/-- What a word is, apart from its place: a reserved word, or else a name. -/
def Keyword.contentOf (text : String) : Kind × String × Option Literal :=
  match Keyword.ofWord? text with
  | some word => (.keyword word, text, none)
  | none => (.identifier, text, some (.str text))

/-- No symbol has a character in it that words are made of. -/
theorem isWordPart_of_isStart {text : List Char} (h : Symbol.isStart text = true) :
    ∀ c ∈ text, isWordPart c = false := by
  have htable :
      Symbol.table.all (fun entry => entry.1.toList.all fun c => !isWordPart c) = true := by decide
  rw [Symbol.isStart, Bool.and_eq_true, List.any_eq_true] at h
  obtain ⟨-, entry, hentry, hahead⟩ := h
  have hentry := List.all_eq_true.mp htable entry hentry
  intro c hc
  have hmem := (List.isPrefixOf_iff_prefix.mp hahead).subset hc
  simpa using List.all_eq_true.mp hentry c hmem

/-- A symbol is not continued by a character that may start a word. -/
theorem isStart_append_word {c : Char} (hc : isWordStart c = true) (seen : List Char) :
    Symbol.isStart (seen ++ [c]) = false := by
  rw [← Bool.not_eq_true]
  intro hstart
  have hpart := isWordPart_of_isStart hstart c (List.mem_append_right _ List.mem_cons_self)
  rw [isWordPart, hc] at hpart
  cases hpart

/-- A character that may start a word starts one. -/
theorem scan_of_isWordStart {c : Char} (hc : isWordStart c = true) (cs : List Char) :
    scan c cs = scanWord (c :: cs.takeWhile isWordPart) := by
  have hsymbol : longestSymbol (c :: cs) = none := by
    rw [longestSymbol, extendSymbol]
    exact if_neg (Bool.eq_false_iff.mp (isStart_append_word hc []))
  have hquote : c ≠ '"' := by
    rintro rfl
    cases hc
  simp only [scan, hsymbol, if_neg hquote, hc, if_true]

/-- A word is scanned to what it is. -/
theorem outcome_scanWord (word : List Char) :
    (scanWord word).outcome = .ok ((Keyword.contentOf (String.ofList word)).1,
      (Keyword.contentOf (String.ofList word)).2.2) := by
  unfold scanWord Keyword.contentOf
  simp only
  rcases Keyword.ofWord? (String.ofList word) with _ | keyword <;> rfl

/-! ### Scans -/

/-- The symbols of the table are spelled as their kinds are. -/
theorem lexeme?_of_mem_table {entry : String × Kind} (h : entry ∈ Symbol.table) :
    entry.2.lexeme? = some entry.1 := by
  rcases List.mem_append.mp h with h | h
  · obtain ⟨op, -, rfl⟩ := List.mem_map.mp h
    rfl
  · obtain ⟨mark, -, rfl⟩ := List.mem_map.mp h
    rfl

/-- The value of a numeral is of the type that its kind says. -/
theorem Numeral.value_cases {n : Numeral} {value : Literal} (h : n.value = .ok value) :
    (n.kind = .literal .float ∧ ∃ number, value = .float number) ∨
      (n.kind = .literal .int ∧ ∃ number, value = .int number) := by
  unfold Numeral.value Numeral.literal at h
  rw [Numeral.kind, Numeral.isFloat]
  split at h
  · next hfloat =>
    split at h <;> cases h
    exact .inl ⟨by rw [if_pos hfloat], _, rfl⟩
  · next hint =>
    split at h
    · cases h
    · split at h <;> cases h
      exact .inr ⟨by rw [if_neg hint], _, rfl⟩

namespace Token

/-- A word has the content that goes with it. -/
theorem coherent_of_word {t : Token} (hword : t.lexeme.toList ∈ Lexeme.words)
    (hcontent : (t.kind, t.literal) =
      ((Keyword.contentOf t.lexeme).1, (Keyword.contentOf t.lexeme).2.2)) : t.Coherent := by
  obtain ⟨hkind, hliteral⟩ := Prod.mk.inj hcontent
  unfold Keyword.contentOf at hkind hliteral
  rw [Coherent]
  rcases hfound : Keyword.ofWord? t.lexeme with _ | word
  · rw [hfound] at hkind hliteral
    rw [hkind]
    exact ⟨hword, Keyword.ofWord?_eq_none_iff.mp hfound, hliteral⟩
  · rw [hfound] at hkind hliteral
    rw [hkind]
    exact ⟨congrArg some (Keyword.ofWord?_eq_some_iff.mp hfound), hliteral⟩

/-- What a scan finds is coherent. -/
theorem Scanned.coherent {t : Token} (h : t.Scanned) : t.Coherent := by
  obtain ⟨c, cs, houtcome, hlexeme⟩ := h
  rcases scan_cases c cs with ⟨symbol, kind, hsymbol, hscan⟩ | ⟨-, hscan⟩ | ⟨hword, hscan⟩ |
    ⟨-, hscan⟩ | hscan
  · rw [hscan] at houtcome hlexeme
    obtain ⟨hkind, hliteral⟩ := Prod.mk.inj (Except.ok.inj houtcome)
    have hspelling := lexeme?_of_mem_table (mem_table_of_longestSymbol hsymbol)
    rw [← hlexeme, hkind] at hspelling
    rw [Coherent]
    rcases kind_of_longestSymbol hsymbol with ⟨op, rfl⟩ | ⟨mark, rfl⟩
    · rw [← hkind] at hspelling ⊢
      exact ⟨hspelling, hliteral.symm⟩
    · rw [← hkind] at hspelling ⊢
      exact ⟨hspelling, hliteral.symm⟩
  · rw [hscan] at houtcome
    obtain ⟨contents, hcontents⟩ := contents_of_scanString houtcome
    simp only [scanString, hcontents] at houtcome
    obtain ⟨hkind, hliteral⟩ := Prod.mk.inj (Except.ok.inj houtcome)
    rw [Coherent, ← hkind]
    exact ⟨_, hliteral.symm⟩
  · rw [hscan, taken_scanWord] at hlexeme
    rw [hscan, outcome_scanWord, ← hlexeme] at houtcome
    refine coherent_of_word ?_ (Except.ok.inj houtcome).symm
    rw [hlexeme, String.toList_ofList]
    exact (longestIn_words hword cs).1
  · rw [hscan] at houtcome
    obtain ⟨n, value, -, hvalue, hkind, hliteral⟩ := exists_value_of_scanNumber houtcome
    rw [Coherent, hkind, hliteral]
    rcases Numeral.value_cases hvalue with ⟨hn, number, rfl⟩ | ⟨hn, number, rfl⟩
    · rw [hn]
      exact ⟨number, rfl⟩
    · rw [hn]
      exact ⟨number, rfl⟩
  · rw [hscan] at houtcome
    cases houtcome

/-- A word by itself is scanned to what it is. -/
theorem scanned_of_word {t : Token} (hword : t.lexeme.toList ∈ Lexeme.words)
    (hcontent : t.content = Keyword.contentOf t.lexeme) : t.Scanned := by
  obtain ⟨c, cs, htext, hc, hcs⟩ := Lexeme.mem_words.mp hword
  have hscan : scan c cs = scanWord (c :: cs) := by
    rw [scan_of_isWordStart hc, List.takeWhile_eq_self_iff.mpr hcs]
  have hlexeme : t.lexeme = String.ofList (c :: cs) := by rw [← htext, String.ofList_toList]
  refine ⟨c, cs, ?_, ?_⟩
  · rw [hscan, outcome_scanWord, ← hlexeme, ← hcontent]
    rfl
  · rw [hscan, taken_scanWord, hlexeme]

end Token

/-! ### Whole texts -/

namespace Lexer

/-- The tokens of a text, and the end that closes them. -/
theorem tokens_lex (file text : String) : (Frontend.lex file text).1.tokens =
    (ofText file text).collect.1 ++ [(ofText file text).collect.2.2.endToken] := rfl

theorem coherent_lex (file text : String) :
    ∀ t ∈ (Frontend.lex file text).1.tokens, t.Coherent := by
  intro t ht
  rw [tokens_lex, List.mem_append, List.mem_singleton] at ht
  rcases ht with ht | rfl
  · exact ((tiled_collect (at_ofText file text) rfl).scanned t ht).coherent
  · exact coherent_endOfFile _

/-- A word is one token, a reserved word or a name. -/
theorem collect_word (file : String) {word : String} (hword : word.toList ∈ Lexeme.words) :
    (ofText file word).collect.1.map Token.content = [Keyword.contentOf word] ∧
      (ofText file word).collect.2.2.failed = false := by
  let token : Token :=
    { kind := (Keyword.contentOf word).1, lexeme := word, span := .atOrigin file
      literal := (Keyword.contentOf word).2.2 }
  have hcontent : token.content = Keyword.contentOf word := by
    show ((Keyword.contentOf word).1, word, (Keyword.contentOf word).2.2) = _
    unfold Keyword.contentOf
    rcases Keyword.ofWord? word with _ | keyword <;> rfl
  have hscanned : token.Scanned := Token.scanned_of_word hword hcontent
  rw [← hcontent]
  exact collect_lexeme file hscanned

end Lexer

/-! ### Cursors -/

namespace Cursor

/-- What is said of all tokens of a cursor, and of the halves of every shift of which it is said, is
so wherever the cursor goes. -/
theorem forall_of_reaches {P : Token → Prop}
    (hhalf : ∀ t, P t → t.kind = .operator .rsh → P (halfShift t 0) ∧ P (halfShift t 1))
    {c d : Cursor} (h : Reaches c d) (hc : ∀ t ∈ c.tokens, P t) : ∀ t ∈ d.tokens, P t := by
  induction h with
  | refl c => exact hc
  | advance _ ih =>
    rw [tokens_advance]
    exact ih hc
  | @splitShift _ d _ ih =>
    rcases splitShift_cases d with hstay | ⟨shift, rest, hahead, hkind, hsplit⟩
    · rw [hstay]
      exact ih hc
    · -- of the new tokens only the two halves were not there before
      have hshift : P shift := by
        apply ih hc shift
        rw [tokens, hahead]
        simp
      intro t ht
      have hold := ih hc t
      rw [tokens, hahead] at hold
      rw [hsplit, tokens] at ht
      simp only [List.reverse_cons, List.append_assoc, List.mem_append, List.mem_cons,
        List.mem_reverse, List.not_mem_nil, or_false] at ht hold
      rcases ht with ht | rfl | (rfl | ht) | ht
      · exact hold (.inl ht)
      · exact (hhalf shift hshift hkind).1
      · exact (hhalf shift hshift hkind).2
      · exact hold (.inr (.inl (.inr ht)))
      · exact hold (.inr (.inr ht))
  | attempt _ tried ih _ =>
    rw [tried.restore_eq]
    exact ih hc

theorem here_mem_tokens (c : Cursor) : c.here ∈ c.tokens := by
  unfold here tokens
  rcases c.ahead with _ | ⟨t, rest⟩ <;> simp

end Cursor

namespace Reader

/-- The tokens of a text have an end, so a reader begins with just these tokens. -/
theorem tokens_ofStream_lex (file text : String) :
    (ReaderState.ofStream (Frontend.lex file text).1).cursor.tokens =
      (Frontend.lex file text).1.tokens := by
  have hend : withEnd (Frontend.lex file text).1.tokens = (Frontend.lex file text).1.tokens := by
    rw [withEnd, Lexer.tokens_lex, List.getLast?_concat]
    rfl
  rw [ReaderState.ofStream, (Cursor.ofTokens_spec _).2.1, hend]

/-- What is said of all tokens of a text, and of the halves of shifts, is so of all tokens that a
reader can come to. -/
theorem forall_run {P : Token → Prop} (hhalf : ∀ t skip, P (halfShift t skip)) {file text : String}
    (htokens : ∀ t ∈ (Frontend.lex file text).1.tokens, P t) (course : Course) :
    ∀ t ∈ (course.run (.ofStream (Frontend.lex file text).1)).cursor.tokens, P t := by
  have hhalves : ∀ t, P t → t.kind = .operator .rsh → P (halfShift t 0) ∧ P (halfShift t 1) :=
    fun t _ _ => ⟨hhalf t 0, hhalf t 1⟩
  refine Cursor.forall_of_reaches hhalves (course.leads_run _).reaches ?_
  rw [tokens_ofStream_lex]
  exact htokens

/-- A primary expression that begins with a literal is that literal. -/
theorem primary_of_literal {s : ReaderState} {kind : LiteralKind} {value : Literal}
    (hkind : s.cursor.here.kind = .literal kind) (hvalue : s.cursor.here.literal = some value)
    (fuel : Nat) (again : Rule → Reader Expr) :
    primary fuel again s = .ok
      (if kind = .identifier then .ident s.cursor.here
        else .literal (.ofLiteral value) s.cursor.here) (past s) := by
  have hhere : here s = .ok s.cursor.here s := rfl
  rw [primary, bind_ok hhere, hkind]
  cases kind with
  | identifier => rfl
  | _ =>
    simp only [hvalue]
    rfl

end Reader

namespace Frontend

/-- **Kind, lexeme and value of every token agree.**

In the tokens of a text every operator, reserved word and mark of punctuation is spelled as its
kind is and has no value, every name is a word that is not reserved and is its own value, and every
number and every quoted text has a value of its type.  Conversely every word
`[A-Za-z_][A-Za-z0-9_]*`, by itself, is one token without any error: the reserved word that is
spelled so, or else a name.

A reader on the tokens of a text relies on this.  In whatever state it has come to, with shifts
split and attempts taken back on the way, a literal that is next has a value, so that a primary
expression which begins with it is read.  The rules of the grammar lead to no other states. -/
theorem lex_coherent (file text : String) :
    (∀ t ∈ (lex file text).1.tokens, t.Coherent) ∧
    (∀ word : String, word.toList ∈ Lexeme.words →
      (lex file word).1.hadError = false ∧
      (lex file word).1.tokens.map Token.content =
        [Keyword.contentOf word, (.endOfFile, "", none)]) ∧
    ∀ course : Course,
      let s := course.run (.ofStream (lex file text).1)
      Reader.FollowsCourses s ∧
      ∀ kind, s.cursor.here.kind = .literal kind → ∃ value, s.cursor.here.literal = some value ∧
        ∀ fuel again, Reader.primary fuel again s = .ok
          (if kind = .identifier then .ident s.cursor.here
            else .literal (.ofLiteral value) s.cursor.here) (Reader.past s) := by
  refine ⟨Lexer.coherent_lex file text, ?_, ?_⟩
  · intro word hword
    obtain ⟨hcontent, hclean⟩ := Lexer.collect_word file hword
    refine ⟨hclean, ?_⟩
    rw [Lexer.tokens_lex, List.map_append, hcontent]
    rfl
  · intro course s
    have hplaced : s.cursor.Placed :=
      (Reader.placed_ofStream _).reaches (course.leads_run _).reaches
    refine ⟨Reader.followsCourses hplaced, ?_⟩
    intro kind hkind
    have hcoherent := Reader.forall_run coherent_halfShift (Lexer.coherent_lex file text) course _
      (Cursor.here_mem_tokens _)
    obtain ⟨value, hvalue⟩ := hcoherent.exists_literal hkind
    exact ⟨value, hvalue, Reader.primary_of_literal hkind hvalue⟩

end Frontend
end CurlyScript
