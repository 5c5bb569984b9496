import Mathlib.Computability.Language
import CurlyScript.Proofs.QuotedTexts

/-!
# The longest lexeme wins

Each class of lexemes is a language of its own: the spellings of a table, words, numbers, quoted
texts.  A lexer finds them by four procedures which do not mention these languages.  It extends a
symbol as long as the table has one that goes on so, takes characters as long as they may stand in
a word, and looks ahead for a point with a digit after it or for an exponent.  Whatever it finds is
the longest beginning of the text that is ahead in the language of its kind.  For symbols this is
also the first entry that fits when the table is gone through from the longest spelling on.

## Main definitions

* `Lexeme.words`, `Lexeme.numbers`, `Lexeme.quoted`, `Lexeme.symbols` — the languages.
* `Kind.lexemes` — the language of a kind of tokens.
* `LongestIn` — the longest beginning of a text in a language.
* `Symbol.first?` — the first entry of the table, longest spellings first, that a text begins with.

## Main results

* `longestSymbol_eq_first` — extending a symbol comes to the first entry that fits.
* `longestIn_of_scan` — what a scan takes is the longest lexeme of its kind.
* `Frontend.lex_munches` — every token of a text is the longest lexeme of its kind where it stands.
-/

namespace CurlyScript

/-! ### Languages of lexemes -/

namespace Lexeme

/-- The texts of one character that is in a class. -/
def oneOf (p : Char → Bool) : Language Char := {w | ∃ c, p c = true ∧ w = [c]}

/-- The texts of any number of characters that are in a class. -/
def manyOf (p : Char → Bool) : Language Char := KStar.kstar (oneOf p)

/-- Reserved words and names: `[A-Za-z_][A-Za-z0-9_]*`. -/
def words : Language Char := oneOf isWordStart * manyOf isWordPart

/-- Runs of digits: `[0-9][0-9_]*`. -/
def digits : Language Char := oneOf isDecimalDigit * manyOf isDigitOrSeparator

/-- Numbers: `digits ('.' digits)? ('e' '-'? digits)?`. -/
def numbers : Language Char :=
  digits * (1 + {['.']} * digits) * (1 + {['e']} * (1 + {['-']}) * digits)

/-- Escaped contents between two quotes. -/
def quoted : Language Char := {w | ∃ contents, Text.Escaped contents ∧ w = '"' :: contents ++ ['"']}

/-- The spellings of the symbols. -/
def symbols : Language Char := {w | ∃ entry ∈ Symbol.table, w = entry.1.toList}

theorem mem_manyOf {p : Char → Bool} {w : List Char} : w ∈ manyOf p ↔ ∀ c ∈ w, p c = true := by
  constructor
  · intro h c hc
    obtain ⟨parts, rfl, hparts⟩ := Language.mem_kstar.mp h
    obtain ⟨part, hpart, hc⟩ := List.mem_flatten.mp hc
    obtain ⟨d, hd, rfl⟩ := hparts part hpart
    rwa [List.mem_singleton.mp hc]
  · intro h
    -- a text is its characters, one after the other
    refine Language.mem_kstar.mpr ⟨w.map fun c => [c], ?_, ?_⟩
    · rw [← List.flatMap_def, List.flatMap_singleton']
    · intro part hpart
      obtain ⟨c, hc, rfl⟩ := List.mem_map.mp hpart
      exact ⟨c, h c hc, rfl⟩

theorem mem_oneOf_mul_manyOf {p q : Char → Bool} {w : List Char} :
    w ∈ oneOf p * manyOf q ↔ ∃ c cs, w = c :: cs ∧ p c = true ∧ ∀ d ∈ cs, q d = true := by
  rw [Language.mem_mul]
  constructor
  · rintro ⟨_, ⟨c, hc, rfl⟩, cs, hcs, rfl⟩
    exact ⟨c, cs, rfl, hc, mem_manyOf.mp hcs⟩
  · rintro ⟨c, cs, rfl, hc, hcs⟩
    exact ⟨[c], ⟨c, hc, rfl⟩, cs, mem_manyOf.mpr hcs, rfl⟩

theorem mem_words {w : List Char} :
    w ∈ words ↔ ∃ c cs, w = c :: cs ∧ isWordStart c = true ∧ ∀ d ∈ cs, isWordPart d = true :=
  mem_oneOf_mul_manyOf

/-- A run of digits is what the language of digits says. -/
theorem mem_digits {w : List Char} : w ∈ digits ↔ IsRun w := by
  refine mem_oneOf_mul_manyOf.trans ?_
  constructor
  · rintro ⟨c, cs, rfl, hc, hcs⟩
    refine ⟨hc, List.forall_mem_cons.mpr ⟨?_, hcs⟩⟩
    rw [isDigitOrSeparator, hc, Bool.true_or]
  · intro h
    cases w with
    | nil => exact absurd h.starts (by simp [startsWithDigit])
    | cons c cs => exact ⟨c, cs, rfl, h.starts, (List.forall_mem_cons.mp h.all).2⟩

theorem mem_fraction {w : List Char} : w ∈ 1 + {['.']} * digits ↔
    ∃ fraction, (∀ run ∈ fraction, IsRun run) ∧ w = Numeral.fractionText fraction := by
  rw [Language.mem_add, Language.mem_one, Language.mem_mul]
  constructor
  · rintro (rfl | ⟨_, rfl, run, hrun, rfl⟩)
    · exact ⟨none, nofun, rfl⟩
    · refine ⟨some run, ?_, rfl⟩
      intro _ hmem
      cases hmem
      exact mem_digits.mp hrun
  · rintro ⟨_ | run, hrun, rfl⟩
    · exact .inl rfl
    · exact .inr ⟨['.'], rfl, run, mem_digits.mpr (hrun run rfl), rfl⟩

theorem mem_exponent {w : List Char} : w ∈ 1 + {['e']} * (1 + {['-']}) * digits ↔
    ∃ exponent, (∀ e ∈ exponent, IsRun e.2) ∧ w = Numeral.exponentText exponent := by
  rw [Language.mem_add, Language.mem_one, Language.mem_mul]
  constructor
  · rintro (rfl | ⟨mark, hmark, run, hrun, rfl⟩)
    · exact ⟨none, nofun, rfl⟩
    · obtain ⟨_, rfl, sign, hsign, rfl⟩ := Language.mem_mul.mp hmark
      have hrun := mem_digits.mp hrun
      rcases hsign with rfl | rfl
      · refine ⟨some (false, run), ?_, rfl⟩
        intro _ hmem
        cases hmem
        exact hrun
      · refine ⟨some (true, run), ?_, rfl⟩
        intro _ hmem
        cases hmem
        exact hrun
  · rintro ⟨_ | ⟨signed, run⟩, hrun, rfl⟩
    · exact .inl rfl
    · have hrun := mem_digits.mpr (hrun _ rfl)
      right
      cases signed with
      | false => exact ⟨_, Language.mem_mul.mpr ⟨['e'], rfl, [], .inl rfl, rfl⟩, run, hrun, rfl⟩
      | true => exact ⟨_, Language.mem_mul.mpr ⟨['e'], rfl, ['-'], .inr rfl, rfl⟩, run, hrun, rfl⟩

/-- Numbers are the texts of numerals. -/
theorem mem_numbers {w : List Char} : w ∈ numbers ↔ ∃ n : Numeral, n.WellFormed ∧ w = n.text := by
  rw [numbers, Language.mem_mul]
  constructor
  · rintro ⟨_, hfront, _, hexponent, rfl⟩
    obtain ⟨whole, hwhole, _, hfraction, rfl⟩ := Language.mem_mul.mp hfront
    obtain ⟨fraction, hruns, rfl⟩ := mem_fraction.mp hfraction
    obtain ⟨exponent, hrun, rfl⟩ := mem_exponent.mp hexponent
    exact ⟨⟨whole, fraction, exponent⟩, ⟨mem_digits.mp hwhole, hruns, hrun⟩, rfl⟩
  · rintro ⟨n, hform, rfl⟩
    refine ⟨_, Language.mem_mul.mpr ⟨_, mem_digits.mpr hform.whole, _, ?_, rfl⟩, _, ?_, rfl⟩
    · exact mem_fraction.mpr ⟨n.fraction, hform.fraction, rfl⟩
    · exact mem_exponent.mpr ⟨n.exponent, hform.exponent, rfl⟩

end Lexeme

/-- The lexemes that tokens of a kind may have.  No text is scanned to a truth value, the end of
the file or a bad token. -/
def Kind.lexemes : Kind → Language Char
  | .operator _ => Lexeme.symbols
  | .punctuation _ => Lexeme.symbols
  | .keyword _ => Lexeme.words
  | .literal .identifier => Lexeme.words
  | .literal .int => Lexeme.numbers
  | .literal .float => Lexeme.numbers
  | .literal .string => Lexeme.quoted
  | .literal .bool => 0
  | .endOfFile => 0
  | .bad => 0

/-- Whether tokens of a kind are symbols. -/
def Kind.isSymbol : Kind → Bool
  | .operator _ => true
  | .punctuation _ => true
  | _ => false

/-- The longest beginning of a text that is in a language. -/
structure LongestIn (language : Language Char) (text lexeme : List Char) : Prop where
  /-- It is in the language. -/
  mem : lexeme ∈ language
  /-- The text begins with it. -/
  ahead : lexeme <+: text
  /-- No longer one does. -/
  longest : ∀ other ∈ language, other <+: text → other.length ≤ lexeme.length

/-! ### Symbols -/

namespace Symbol

/-- The first entry of the table, longer spellings first, that a text begins with. -/
def first? (text : List Char) : Option (String × Kind) :=
  longestFirst.find? fun entry => entry.1.toList.isPrefixOf text

theorem listedBefore_iff {a b : String × Kind} : listedBefore a b = true ↔
    b.1.length < a.1.length ∨ (a.1.length = b.1.length ∧ a.1 ≤ b.1) := by
  simp only [listedBefore, Bool.or_eq_true, Bool.and_eq_true, decide_eq_true_eq, beq_iff_eq]

/-- In the listing no spelling comes before a longer one. -/
theorem pairwise_longestFirst :
    longestFirst.Pairwise fun a b => b.1.length ≤ a.1.length := by
  have hsorted : longestFirst.Pairwise fun a b => listedBefore a b = true := by
    apply List.pairwise_mergeSort
    · intro a b c hab hbc
      rw [listedBefore_iff] at hab hbc ⊢
      rcases hab with hab | ⟨hab, hab'⟩
      · left
        omega
      · rcases hbc with hbc | ⟨hbc, hbc'⟩
        · left
          omega
        · exact .inr ⟨hab.trans hbc, String.le_trans hab' hbc'⟩
    · intro a b
      rw [Bool.or_eq_true, listedBefore_iff, listedBefore_iff]
      rcases Nat.lt_trichotomy a.1.length b.1.length with hlt | heq | hgt
      · exact .inr (.inl hlt)
      · rcases String.le_total a.1 b.1 with hle | hle
        · exact .inl (.inr ⟨heq, hle⟩)
        · exact .inr (.inr ⟨heq.symm, hle⟩)
      · exact .inl (.inl hgt)
  refine hsorted.imp ?_
  intro a b hab
  rcases listedBefore_iff.mp hab with hlt | ⟨heq, -⟩
  · exact Nat.le_of_lt hlt
  · exact Nat.le_of_eq heq.symm

theorem mem_longestFirst {entry : String × Kind} : entry ∈ longestFirst ↔ entry ∈ table :=
  (List.mergeSort_perm _ _).mem_iff

/-- A spelling has one kind. -/
theorem eq_of_spelling {a b : String × Kind} (ha : a ∈ table) (hb : b ∈ table) (h : a.1 = b.1) :
    a = b :=
  List.inj_on_of_nodup_map (f := Prod.fst) (by decide) ha hb h

/-- The entry that comes first is at least as long as any other that fits. -/
theorem length_le_of_first {text : List Char} {entry other : String × Kind}
    (h : first? text = some entry) (hmem : other ∈ table) (hahead : other.1.toList <+: text) :
    other.1.length ≤ entry.1.length := by
  obtain ⟨-, earlier, later, hlist, hnone⟩ := List.find?_eq_some_iff_append.mp h
  have hpairs := pairwise_longestFirst
  have hother := mem_longestFirst.mpr hmem
  rw [hlist] at hpairs hother
  rcases List.mem_append.mp hother with hearlier | hlater
  · -- an entry before the first that fits does not fit
    have hfits := hnone other hearlier
    rw [List.isPrefixOf_iff_prefix.mpr hahead] at hfits
    cases hfits
  · rcases List.mem_cons.mp hlater with rfl | hlater
    · exact Nat.le_refl _
    · exact (List.pairwise_cons.mp (List.pairwise_append.mp hpairs).2.1).1 other hlater

end Symbol

/-- Extending a symbol does not stop before the end of an entry of the table that is ahead: all its
beginnings are beginnings of a symbol. -/
theorem extendSymbol_reaches {entry : String × Kind} (hentry : entry ∈ Symbol.table)
    {cs : List Char} : ∀ {seen : List Char} {best : Option (List Char × Kind)},
    entry.1.toList <+: seen ++ cs → seen.length < entry.1.toList.length →
      ∃ symbol kind, extendSymbol seen best cs = some (symbol, kind) ∧
        entry.1.toList.length ≤ symbol.length := by
  induction cs with
  | nil =>
    intro seen best hahead hlonger
    have hlength := hahead.length_le
    rw [List.append_nil] at hlength
    omega
  | cons c cs ih =>
    intro seen best hahead hlonger
    rw [List.append_cons] at hahead
    have hlength : (seen ++ [c]).length = seen.length + 1 := by simp
    have hbegins : seen ++ [c] <+: entry.1.toList :=
      List.prefix_of_prefix_length_le (List.prefix_append _ _) hahead (by omega)
    have hstart : Symbol.isStart (seen ++ [c]) = true := by
      rw [Symbol.isStart, Bool.and_eq_true, List.any_eq_true]
      exact ⟨by simp, entry, hentry, List.isPrefixOf_iff_prefix.mpr hbegins⟩
    simp only [extendSymbol, if_pos hstart]
    by_cases hmore : (seen ++ [c]).length < entry.1.toList.length
    · exact ih hahead hmore
    · -- the entry is what has been seen, and only a longer symbol takes its place
      have hwhole : seen ++ [c] = entry.1.toList := hbegins.eq_of_length (by omega)
      have hkind : ∃ kind, Symbol.kind? (seen ++ [c]) = some kind := by
        rw [← Option.isSome_iff_exists, Symbol.kind?, Option.isSome_map, List.find?_isSome]
        exact ⟨entry, hentry, by simp [hwhole]⟩
      obtain ⟨kind, hkind⟩ := hkind
      rw [hkind, ← hwhole]
      rcases extendSymbol_cases (seen ++ [c]) (some (seen ++ [c], kind)) cs with
        hsame | ⟨symbol, kind', hfound, hlong, -⟩
      · exact ⟨_, kind, hsame, Nat.le_refl _⟩
      · exact ⟨symbol, kind', hfound, Nat.le_of_lt hlong⟩

/-- Every entry of the table that a text begins with is at most as long as the symbol found. -/
theorem exists_longestSymbol {entry : String × Kind} {cs : List Char}
    (hentry : entry ∈ Symbol.table) (hahead : entry.1.toList <+: cs) :
    ∃ symbol kind, longestSymbol cs = some (symbol, kind) ∧
      entry.1.toList.length ≤ symbol.length := by
  have hspelled : Symbol.table.all (fun entry => !entry.1.toList.isEmpty) = true := by decide
  have hpos := List.all_eq_true.mp hspelled entry hentry
  refine extendSymbol_reaches hentry hahead ?_
  rw [Bool.not_eq_true', List.isEmpty_eq_false_iff] at hpos
  exact List.length_pos_iff.mpr hpos

/-- **Extending a symbol comes to the first entry of the table that fits**, when longer spellings
are tried before shorter ones. -/
theorem longestSymbol_eq_first (cs : List Char) :
    longestSymbol cs = (Symbol.first? cs).map fun entry => (entry.1.toList, entry.2) := by
  cases hfound : longestSymbol cs with
  | none =>
    -- no entry fits, since it would have been reached
    have hnone : Symbol.first? cs = none := by
      rw [Symbol.first?, List.find?_eq_none]
      intro entry hentry hahead
      obtain ⟨symbol, kind, hsome, -⟩ := exists_longestSymbol (Symbol.mem_longestFirst.mp hentry)
        (List.isPrefixOf_iff_prefix.mp hahead)
      rw [hfound] at hsome
      cases hsome
    rw [hnone, Option.map_none]
  | some found =>
    obtain ⟨symbol, kind⟩ := found
    have hmem := mem_table_of_longestSymbol hfound
    have hahead : symbol <+: cs := extendSymbol_ahead (by simp) _ hfound
    have hsome : (Symbol.first? cs).isSome = true := by
      rw [Symbol.first?, List.find?_isSome]
      refine ⟨_, Symbol.mem_longestFirst.mpr hmem, ?_⟩
      rw [String.toList_ofList]
      exact List.isPrefixOf_iff_prefix.mpr hahead
    obtain ⟨entry, hentry⟩ := Option.isSome_iff_exists.mp hsome
    have hentry_mem := Symbol.mem_longestFirst.mp (List.mem_of_find?_eq_some hentry)
    have hentry_ahead : entry.1.toList <+: cs :=
      List.isPrefixOf_iff_prefix.mp
        (List.find?_some (p := fun entry : String × Kind => entry.1.toList.isPrefixOf cs) hentry)
    -- neither of the two is longer than the other
    have hle : symbol.length ≤ entry.1.toList.length := by
      have hlength := Symbol.length_le_of_first hentry hmem (by rwa [String.toList_ofList])
      rwa [← String.length_toList, ← String.length_toList, String.toList_ofList] at hlength
    obtain ⟨symbol', kind', hfound', hge⟩ := exists_longestSymbol hentry_mem hentry_ahead
    rw [hfound] at hfound'
    cases hfound'
    have hspelling : entry.1.toList = symbol :=
      (List.prefix_of_prefix_length_le hentry_ahead hahead hge).eq_of_length
        (Nat.le_antisymm hge hle)
    have hsame : (String.ofList symbol, kind) = entry := by
      refine Symbol.eq_of_spelling hmem hentry_mem ?_
      rw [← hspelling]
      exact String.ofList_toList
    rw [hentry, Option.map_some, hspelling, ← hsame]

/-! ### The longest lexeme of a class -/

open Lexeme in
theorem longestIn_symbols {cs symbol : List Char} {kind : Kind}
    (h : longestSymbol cs = some (symbol, kind)) : LongestIn symbols cs symbol := by
  refine ⟨⟨_, mem_table_of_longestSymbol h, String.toList_ofList.symm⟩,
    extendSymbol_ahead (by simp) _ h, ?_⟩
  rintro other ⟨entry, hentry, rfl⟩ hahead
  obtain ⟨symbol', kind', hfound, hle⟩ := exists_longestSymbol hentry hahead
  rw [h] at hfound
  cases hfound
  exact hle

open Lexeme in
theorem longestIn_words {c : Char} (hc : isWordStart c = true) (cs : List Char) :
    LongestIn words (c :: cs) (c :: cs.takeWhile isWordPart) := by
  refine ⟨mem_words.mpr ⟨c, _, rfl, hc, fun d hd => List.mem_takeWhile_imp hd⟩,
    (List.prefix_cons_inj c).mpr (List.takeWhile_prefix _), ?_⟩
  intro other hother hahead
  obtain ⟨d, ds, rfl, -, hds⟩ := mem_words.mp hother
  obtain ⟨rfl, r, rfl⟩ := List.cons_prefix_cons.mp hahead
  -- the characters of another word are all taken
  rw [List.takeWhile_append_of_pos hds, List.length_cons, List.length_cons, List.length_append]
  omega

/-- A numeral with nothing behind it is not continued. -/
theorem Numeral.ends_nil (n : Numeral) : n.Ends [] := ⟨stopsRun_nil, fun _ => nofun, fun _ => rfl⟩

/-- A text is that of one numeral at most. -/
theorem Numeral.eq_of_text {m n : Numeral} (hm : m.WellFormed) (hn : n.WellFormed)
    (h : m.text = n.text) : m = n := by
  have hread : read m.text = .ok m := by
    have hread := read_text_append hm m.ends_nil
    rwa [List.append_nil] at hread
  have hread' : read n.text = .ok n := by
    have hread' := read_text_append hn n.ends_nil
    rwa [List.append_nil] at hread'
  rw [h] at hread
  exact Except.ok.inj (hread.symm.trans hread')

open Lexeme in
theorem longestIn_numbers {cs : List Char} {n : Numeral} (hcs : startsWithDigit cs = true)
    (h : Numeral.read cs = .ok n) : LongestIn numbers cs n.text := by
  obtain ⟨r, rfl, hform, hends⟩ := Numeral.exists_rest_of_read hcs h
  refine ⟨mem_numbers.mpr ⟨n, hform, rfl⟩, List.prefix_append _ _, ?_⟩
  intro other hother hahead
  obtain ⟨m, hm, rfl⟩ := mem_numbers.mp hother
  rcases List.prefix_or_prefix_of_prefix hahead (List.prefix_append n.text r) with hle | ⟨r', hr'⟩
  · exact hle.length_le
  · -- a longer numeral would be read as this one, as what is behind this one does not continue it
    obtain ⟨y, hy⟩ := hahead
    rw [← hr', List.append_assoc, List.append_cancel_left_eq] at hy
    rw [← hy] at hends
    have hread := Numeral.read_text_append hform hends.cut
    have hread' := Numeral.read_text_append hm m.ends_nil
    rw [List.append_nil] at hread'
    rw [hr', hread', Except.ok.injEq] at hread
    rw [hread]

open Lexeme in
theorem longestIn_quoted {cs contents : List Char} (h : stringContents cs = some contents) :
    LongestIn quoted ('"' :: cs) ('"' :: contents ++ ['"']) := by
  refine ⟨⟨contents, escaped_of_stringContents h, rfl⟩,
    (List.prefix_cons_inj _).mpr (stringContents_ahead h), ?_⟩
  rintro other ⟨contents', hescaped, rfl⟩ hahead
  -- there is only one way to close a quoted text
  rw [List.cons_append, List.prefix_cons_inj] at hahead
  have hclosed := stringContents_eq_some_iff.mpr ⟨hescaped, hahead⟩
  rw [h] at hclosed
  cases hclosed
  exact Nat.le_refl _

/-- **What a scan takes is the longest lexeme of its kind.** -/
theorem longestIn_of_scan {c : Char} {cs : List Char} {kind : Kind} {literal : Option Literal}
    (h : (scan c cs).outcome = .ok (kind, literal)) :
    LongestIn kind.lexemes (c :: cs) (scan c cs).taken := by
  rcases scan_cases c cs with ⟨symbol, found, hsymbol, hscan⟩ | ⟨rfl, hscan⟩ | ⟨hword, hscan⟩ |
    ⟨hdigit, hscan⟩ | hscan
  · rw [hscan] at h ⊢
    cases h
    rcases kind_of_longestSymbol hsymbol with ⟨op, rfl⟩ | ⟨mark, rfl⟩
    · exact longestIn_symbols hsymbol
    · exact longestIn_symbols hsymbol
  · rw [hscan] at h ⊢
    obtain ⟨contents, hcontents⟩ := contents_of_scanString h
    simp only [scanString, hcontents] at h ⊢
    cases h
    exact longestIn_quoted hcontents
  · rw [hscan] at h
    have hlanguage : kind.lexemes = Lexeme.words := by
      rcases kind_of_scanWord h with ⟨keyword, rfl⟩ | rfl <;> rfl
    rw [hscan, taken_scanWord, hlanguage]
    exact longestIn_words hword cs
  · rw [hscan] at h
    obtain ⟨n, value, hread, -, hkind, -⟩ := exists_value_of_scanNumber h
    have hlanguage : kind.lexemes = Lexeme.numbers := by
      rw [hkind, Numeral.kind]
      split <;> rfl
    rw [hscan, scanNumber_eq hread, hlanguage]
    exact longestIn_numbers hdigit hread
  · rw [hscan] at h
    cases h

/-- A symbol that a scan takes is the first entry of the table that fits. -/
theorem first_of_scan {c : Char} {cs : List Char} {kind : Kind} {literal : Option Literal}
    (h : (scan c cs).outcome = .ok (kind, literal)) (hkind : kind.isSymbol = true) :
    Symbol.first? (c :: cs) = some (String.ofList (scan c cs).taken, kind) := by
  rcases scan_cases c cs with ⟨symbol, found, hsymbol, hscan⟩ | ⟨-, hscan⟩ | ⟨-, hscan⟩ |
    ⟨-, hscan⟩ | hscan
  · rw [hscan] at h ⊢
    cases h
    rw [longestSymbol_eq_first] at hsymbol
    obtain ⟨entry, hentry, heq⟩ := Option.map_eq_some_iff.mp hsymbol
    cases heq
    rw [String.ofList_toList]
    exact hentry
  · rw [hscan] at h
    obtain ⟨contents, hcontents⟩ := contents_of_scanString h
    simp only [scanString, hcontents] at h
    cases h
    cases hkind
  · rw [hscan] at h
    rcases kind_of_scanWord h with ⟨keyword, rfl⟩ | rfl <;> cases hkind
  · rw [hscan] at h
    obtain ⟨n, -, -, -, rfl, -⟩ := exists_value_of_scanNumber h
    cases hkind
  · rw [hscan] at h
    cases h

/-! ### Whole texts -/

namespace Frontend

/-- **Every token of a text is the longest lexeme of its kind where it stands.**

Where a token begins, its lexeme is the longest beginning of the rest of the text that is in the
language of its kind.  An operator or a mark of punctuation is moreover the first entry of the
table, longer spellings first, that the rest of the text begins with, and has the kind of that
entry.  This holds of every text that a symbol is looked for in: extending a symbol by one
character after the other comes to the same as going through the whole table. -/
theorem lex_munches (file text : String) :
    (∀ t ∈ (lex file text).1.withoutEnd, ∃ ahead,
      Text.dropBytes? t.span.start text.toList = some ahead ∧
      LongestIn t.kind.lexemes ahead t.lexeme.toList ∧
      (t.kind.isSymbol = true → Symbol.first? ahead = some (t.lexeme, t.kind))) ∧
    ∀ cs, longestSymbol cs = (Symbol.first? cs).map fun entry => (entry.1.toList, entry.2) := by
  refine ⟨?_, longestSymbol_eq_first⟩
  intro t ht
  have hwithout : (lex file text).1.withoutEnd = (Lexer.ofText file text).collect.1 :=
    Lexer.withoutEnd_tokenize _
  rw [hwithout] at ht
  obtain ⟨before, c, cs, hlooks, houtcome, hlexeme, hspan⟩ := Lexer.exists_looksAt_of_mem ht
  refine ⟨c :: cs, ?_, ?_, ?_⟩
  · rw [hspan, Lexer.start_spanBehind, hlooks.text_eq, Text.dropBytes?_append]
  · rw [hlexeme, String.toList_ofList]
    exact longestIn_of_scan houtcome
  · intro hkind
    rw [hlexeme]
    exact first_of_scan houtcome hkind

end Frontend
end CurlyScript
