import CurlyScript.Proofs.Tiling

/-!
# How far a scan looks ahead

A scan looks further than it takes: a symbol is extended as long as some symbol begins so, and a
number asks whether a point or an exponent follows.  None of this reaches across a blank, and none
of it depends on characters that come after the ones that were looked at.  So a token stays the
same when the text behind it is cut off, and when a blank and any further text are put there.

## Main definitions

* `IsRun` — a run of digits as it is written.
* `Numeral.WellFormed` — the parts of a numeral are runs of digits.
* `Numeral.Ends` — what may follow a numeral so that it is not read on.
* `Lexer.before` — a lexer at the same place, with another text before it.

## Main results

* `Numeral.read_eq_ok_iff` — which numeral is read from which text.
* `scan_cut` — a token does not depend on what comes after it.
* `scan_before_blank` — a token that ends a text also stands before a blank.
* `Lexer.next_before_append` — a request comes to the same with more text, if the scan does.
-/

namespace CurlyScript

/-! ### Blanks are in no lexeme but quoted texts -/

namespace Text

/-- A character of a blank is none of the visible ones of the language. -/
theorem toNat_of_isBlank {w : Char} (h : isBlank w = true) : w.toNat ≤ 32 ∨ 126 < w.toNat := by
  simp only [isBlank, blankRanges, inRanges_cons, inRanges_nil, Bool.or_false, Bool.or_eq_true,
    Bool.and_eq_true, decide_eq_true_eq] at h
  omega

end Text

section Blank

variable {w : Char} (hw : Text.isBlank w = true)
include hw

theorem isDecimalDigit_of_isBlank : isDecimalDigit w = false := by
  have hcode := Text.toNat_of_isBlank hw
  have hle : ∀ a b : Char, a ≤ b ↔ a.toNat ≤ b.toNat := fun _ _ => Iff.rfl
  simp only [isDecimalDigit, hle, Bool.and_eq_false_iff, decide_eq_false_iff_not]
  simp only [show '0'.toNat = 48 from rfl, show '9'.toNat = 57 from rfl]
  omega

theorem ne_of_isBlank {c : Char} (hc : Text.isBlank c = false) : w ≠ c := by
  rintro rfl
  rw [hw] at hc
  cases hc

theorem isDigitOrSeparator_of_isBlank : isDigitOrSeparator w = false := by
  rw [isDigitOrSeparator, isDecimalDigit_of_isBlank hw, Bool.false_or, beq_eq_false_iff_ne]
  exact ne_of_isBlank hw rfl

theorem isWordPart_of_isBlank : isWordPart w = false := by
  have hcode := Text.toNat_of_isBlank hw
  have hle : ∀ a b : Char, a ≤ b ↔ a.toNat ≤ b.toNat := fun _ _ => Iff.rfl
  have hunderscore : (w == '_') = false := beq_eq_false_iff_ne.mpr (ne_of_isBlank hw rfl)
  rw [isWordPart, isDecimalDigit_of_isBlank hw, isWordStart, hunderscore, Bool.or_false,
    Bool.or_false]
  simp only [hle, Bool.or_eq_false_iff, Bool.and_eq_false_iff, decide_eq_false_iff_not,
    show 'a'.toNat = 97 from rfl, show 'z'.toNat = 122 from rfl, show 'A'.toNat = 65 from rfl,
    show 'Z'.toNat = 90 from rfl]
  omega

/-- No symbol has a blank in it. -/
theorem not_mem_symbol_of_isBlank {spelling : List Char} {kind : Kind}
    (h : Symbol.kind? spelling = some kind) : w ∉ spelling := by
  have htable :
      Symbol.table.all (fun entry => entry.1.toList.all fun c => !Text.isBlank c) = true := by
    decide
  obtain ⟨entry, hentry, -⟩ := Option.map_eq_some_iff.mp h
  have hspelling : (entry.1.toList == spelling) = true :=
    List.find?_some (p := fun entry : String × Kind => entry.1.toList == spelling) hentry
  rw [beq_iff_eq] at hspelling
  intro hmem
  have hsymbol := List.all_eq_true.mp htable entry (List.mem_of_find?_eq_some hentry)
  have hblank := List.all_eq_true.mp hsymbol w (hspelling ▸ hmem)
  rw [hw] at hblank
  cases hblank

end Blank

/-! ### Runs of characters -/

/-- A run of characters that stays within the first part of a text is the run of that part. -/
theorem takeWhile_cut {p : Char → Bool} {x y : List Char} (h : (x ++ y).takeWhile p <+: x) :
    x.takeWhile p = (x ++ y).takeWhile p := by
  rw [List.takeWhile_append] at h ⊢
  split
  · next hall =>
    rw [if_pos hall] at h
    have hlength := h.length_le
    rw [List.length_append] at hlength
    have hnil : y.takeWhile p = [] := List.eq_nil_of_length_eq_zero (by omega)
    rw [hnil, List.append_nil]
    exact (List.takeWhile_prefix p).eq_of_length hall
  · rfl

/-- A run of characters ends before a character that is none of them. -/
theorem takeWhile_before {p : Char → Bool} {w : Char} (hw : p w = false) (x y : List Char) :
    (x ++ w :: y).takeWhile p = x.takeWhile p := by
  rw [List.takeWhile_append, List.takeWhile_cons_of_neg (by simp [hw]), List.append_nil]
  split
  · next hall => exact ((List.takeWhile_prefix p).eq_of_length hall).symm
  · rfl

/-! ### Symbols -/

/-- Looking at more characters brings nothing new, or a symbol that is longer than what was seen. -/
theorem extendSymbol_cases (seen : List Char) (best : Option (List Char × Kind)) (y : List Char) :
    extendSymbol seen best y = best ∨
      ∃ symbol kind, extendSymbol seen best y = some (symbol, kind) ∧
      seen.length < symbol.length ∧ Symbol.kind? symbol = some kind := by
  induction y generalizing seen best with
  | nil => exact .inl rfl
  | cons c y ih =>
    simp only [extendSymbol]
    split
    · have hlength : (seen ++ [c]).length = seen.length + 1 := by simp
      cases hkind : Symbol.kind? (seen ++ [c]) with
      | none =>
        rcases ih (seen ++ [c]) best with hsame | ⟨symbol, kind, hfound, hlonger, hfit⟩
        · exact .inl hsame
        · exact .inr ⟨symbol, kind, hfound, by omega, hfit⟩
      | some kind =>
        rcases ih (seen ++ [c]) (some (seen ++ [c], kind)) with
          hsame | ⟨symbol, kind, hfound, hlonger, hfit⟩
        · exact .inr ⟨_, kind, hsame, by omega, hkind⟩
        · exact .inr ⟨symbol, kind, hfound, by omega, hfit⟩
    · exact .inl rfl

theorem extendSymbol_append (seen : List Char) (best : Option (List Char × Kind))
    (x y : List Char) :
    extendSymbol seen best (x ++ y) = extendSymbol seen best x ∨
      ∃ symbol kind, extendSymbol seen best (x ++ y) = some (symbol, kind) ∧
        (seen ++ x).length < symbol.length ∧ Symbol.kind? symbol = some kind := by
  induction x generalizing seen best with
  | nil =>
    rw [List.append_nil, List.nil_append]
    exact extendSymbol_cases seen best y
  | cons c x ih =>
    simp only [List.cons_append, extendSymbol]
    split
    · rw [List.append_cons seen c x]
      exact ih (seen ++ [c]) _
    · exact .inl rfl

/-- The longest symbol at the head of a text is that of its first part, or reaches beyond it. -/
theorem longestSymbol_append (x y : List Char) :
    longestSymbol (x ++ y) = longestSymbol x ∨
      ∃ symbol kind, longestSymbol (x ++ y) = some (symbol, kind) ∧
        x.length < symbol.length ∧ Symbol.kind? symbol = some kind :=
  extendSymbol_append [] none x y

/-- A symbol does not reach across a blank. -/
theorem longestSymbol_before_blank {w : Char} (hw : Text.isBlank w = true) (x y : List Char) :
    longestSymbol (x ++ w :: y) = longestSymbol x := by
  rcases longestSymbol_append x (w :: y) with h | ⟨symbol, kind, hfound, hlonger, hkind⟩
  · exact h
  · -- a symbol that reaches beyond the first part has the blank in it
    have hahead : symbol <+: x ++ w :: y := extendSymbol_ahead (by simp) _ hfound
    have hmore : x ++ [w] <+: symbol := by
      refine List.prefix_of_prefix_length_le ⟨y, by simp⟩ hahead ?_
      rw [List.length_append]
      exact hlonger
    exact absurd (hmore.subset (by simp)) (not_mem_symbol_of_isBlank hw hkind)

/-! ### Quoted texts -/

/-- A quoted text is read up to its closing quote, whatever comes after it. -/
theorem stringContents_closed {cs contents : List Char} (h : stringContents cs = some contents)
    (y : List Char) : stringContents (contents ++ '"' :: y) = some contents := by
  fun_induction stringContents cs generalizing contents with
  | case1 => cases h
  | case2 cs =>
    cases h
    rfl
  | case3 c cs ih =>
    obtain ⟨more, hmore, rfl⟩ := Option.map_eq_some_iff.mp h
    simp only [List.cons_append, stringContents, ih hmore, Option.map_some]
  | case4 c cs hquote hescape ih =>
    obtain ⟨more, hmore, rfl⟩ := Option.map_eq_some_iff.mp h
    -- a backslash that nothing follows is followed by no quote either
    have hplain : c ≠ '\\' := by
      rintro rfl
      cases cs with
      | nil => cases hmore
      | cons d ds => exact hescape d ds rfl rfl
    rw [List.cons_append, stringContents_cons hquote hplain, ih hmore, Option.map_some]

theorem stringContents_append {x contents : List Char} (h : stringContents x = some contents)
    (y : List Char) : stringContents (x ++ y) = some contents := by
  obtain ⟨rest, rfl⟩ := stringContents_ahead h
  rw [List.append_assoc, List.append_assoc]
  exact stringContents_closed h (rest ++ y)

theorem stringContents_cut {x y contents : List Char}
    (h : stringContents (x ++ y) = some contents) (hahead : contents ++ ['"'] <+: x) :
    stringContents x = some contents := by
  obtain ⟨rest, rfl⟩ := hahead
  rw [List.append_assoc]
  exact stringContents_closed h rest

theorem contents_of_scanString {cs : List Char} {found : Kind × Option Literal}
    (h : (scanString cs).outcome = .ok found) : ∃ contents, stringContents cs = some contents := by
  unfold scanString at h
  split at h
  · next contents hcontents => exact ⟨contents, hcontents⟩
  · cases h

theorem scanString_append {x : List Char} {found : Kind × Option Literal}
    (h : (scanString x).outcome = .ok found) (y : List Char) :
    scanString (x ++ y) = scanString x := by
  obtain ⟨contents, hcontents⟩ := contents_of_scanString h
  simp only [scanString, hcontents, stringContents_append hcontents]

theorem scanString_cut {x y : List Char} {found : Kind × Option Literal}
    (h : (scanString (x ++ y)).outcome = .ok found)
    (hahead : (scanString (x ++ y)).taken <+: '"' :: x) : scanString x = scanString (x ++ y) := by
  obtain ⟨contents, hcontents⟩ := contents_of_scanString h
  simp only [scanString, hcontents, List.cons_append, List.prefix_cons_inj] at hahead
  simp only [scanString, hcontents, stringContents_cut hcontents hahead]

/-! ### Runs of digits -/

/-- A run of digits as it is written: a digit, and then digits and separators. -/
structure IsRun (run : List Char) : Prop where
  /-- A digit comes first. -/
  starts : startsWithDigit run = true
  /-- Digits and separators follow. -/
  all : ∀ c ∈ run, isDigitOrSeparator c = true

/-- A text that does not continue a run of digits before it. -/
def StopsRun (r : List Char) : Prop := ∀ c ∈ r.head?, isDigitOrSeparator c = false

theorem stopsRun_nil : StopsRun [] := nofun

theorem stopsRun_cons {c : Char} {r : List Char} :
    StopsRun (c :: r) ↔ isDigitOrSeparator c = false := by
  simp only [StopsRun, List.head?_cons, Option.mem_some_iff, forall_eq']

theorem startsWithDigit_append {x : List Char} (h : startsWithDigit x = true) (y : List Char) :
    startsWithDigit (x ++ y) = true := by
  cases x with
  | nil => cases h
  | cons c x => exact h

theorem digitRun_append {run r : List Char} (hrun : IsRun run) (hr : StopsRun r) :
    digitRun (run ++ r) = run := by
  rw [digitRun, if_pos (startsWithDigit_append hrun.starts r),
    List.takeWhile_append_of_pos hrun.all]
  cases r with
  | nil => exact List.append_nil run
  | cons c r =>
    rw [List.takeWhile_cons_of_neg (by simp [stopsRun_cons.mp hr]), List.append_nil]

/-- A text that begins with a digit is a run of digits and something that does not continue it. -/
theorem exists_run {cs : List Char} (h : startsWithDigit cs = true) :
    ∃ r, cs = digitRun cs ++ r ∧ IsRun (digitRun cs) ∧ StopsRun r := by
  rw [digitRun, if_pos h]
  refine ⟨cs.dropWhile isDigitOrSeparator, List.takeWhile_append_dropWhile.symm, ⟨?_, ?_⟩, ?_⟩
  · cases cs with
    | nil => cases h
    | cons c cs =>
      have hc : isDigitOrSeparator c = true := by
        rw [isDigitOrSeparator, show isDecimalDigit c = true from h, Bool.true_or]
      rw [List.takeWhile_cons_of_pos hc]
      exact h
  · exact fun c hc => List.mem_takeWhile_imp hc
  · intro c hc
    have hhead := List.head?_dropWhile_not isDigitOrSeparator cs
    rw [Option.mem_def.mp hc] at hhead
    exact hhead

/-! ### Numerals -/

namespace Numeral

/-- All parts of the numeral are runs of digits. -/
structure WellFormed (n : Numeral) : Prop where
  /-- There are digits before the point. -/
  whole : IsRun n.whole
  /-- There are digits after a point. -/
  fraction : ∀ digits ∈ n.fraction, IsRun digits
  /-- There are digits in an exponent. -/
  exponent : ∀ e ∈ n.exponent, IsRun e.2

/-- What comes after the numeral does not continue it: no digit or separator, and as long as there
is no exponent, no exponent and no fraction either. -/
structure Ends (n : Numeral) (r : List Char) : Prop where
  /-- The last run of digits is not continued. -/
  stops : StopsRun r
  /-- There is no exponent to come. -/
  no_exponent : n.exponent = none → r.head? ≠ some 'e'
  /-- There is no fraction to come. -/
  no_fraction : n.exponent = none → readFraction r = none

theorem readFraction_eq_none_iff {cs : List Char} :
    readFraction cs = none ↔ ∀ r, cs = '.' :: r → startsWithDigit r = false := by
  unfold readFraction
  split
  · next r =>
    constructor
    · rintro h _ ⟨⟩
      cases hdigit : startsWithDigit r with
      | false => rfl
      | true =>
        rw [if_pos hdigit] at h
        cases h
    · intro h
      rw [if_neg (by simp [h r rfl])]
  · next hpoint =>
    constructor
    · rintro - r rfl
      exact absurd rfl (hpoint r)
    · exact fun _ => rfl

/-- A fraction is read up to where its digits end. -/
theorem exists_fraction {cs : List Char} (h : StopsRun cs) :
    ∃ r, cs = fractionText (readFraction cs) ++ r ∧ (∀ digits ∈ readFraction cs, IsRun digits) ∧
      StopsRun r ∧ (readFraction cs = none → r = cs) := by
  unfold readFraction
  split
  · next cs =>
    split
    · next hdigit =>
      obtain ⟨r, hr, hrun, hstops⟩ := exists_run hdigit
      refine ⟨r, congrArg ('.' :: ·) hr, ?_, hstops, nofun⟩
      rintro _ ⟨⟩
      exact hrun
    · exact ⟨'.' :: cs, rfl, nofun, h, fun _ => rfl⟩
  · exact ⟨cs, rfl, nofun, h, fun _ => rfl⟩

theorem readFraction_append {fraction : Option (List Char)} {r : List Char}
    (hfraction : ∀ digits ∈ fraction, IsRun digits) (hr : StopsRun r)
    (hnone : fraction = none → readFraction r = none) :
    readFraction (fractionText fraction ++ r) = fraction := by
  cases fraction with
  | none => exact hnone rfl
  | some digits =>
    have hrun := hfraction digits rfl
    rw [fractionText, List.cons_append, readFraction,
      if_pos (startsWithDigit_append hrun.starts r), digitRun_append hrun hr]

/-- An exponent is read up to where its digits end. -/
theorem exists_exponent {cs : List Char} {exponent : Option (Bool × List Char)} (h : StopsRun cs)
    (hread : readExponent cs = .ok exponent) :
    ∃ r, cs = exponentText exponent ++ r ∧ (∀ e ∈ exponent, IsRun e.2) ∧ StopsRun r ∧
      (exponent = none → r = cs ∧ cs.head? ≠ some 'e') := by
  unfold readExponent at hread
  split at hread
  · cases hread
  · split at hread
    · next hdigit =>
      cases hread
      obtain ⟨r, hr, hrun, hstops⟩ := exists_run hdigit
      refine ⟨r, congrArg ('e' :: '-' :: ·) hr, ?_, hstops, nofun⟩
      rintro _ ⟨⟩
      exact hrun
    · cases hread
  · split at hread
    · next hdigit =>
      cases hread
      obtain ⟨r, hr, hrun, hstops⟩ := exists_run hdigit
      refine ⟨r, congrArg ('e' :: ·) hr, ?_, hstops, nofun⟩
      rintro _ ⟨⟩
      exact hrun
    · cases hread
  · next hletter =>
    cases hread
    refine ⟨cs, rfl, nofun, h, fun _ => ⟨rfl, ?_⟩⟩
    cases cs with
    | nil => exact nofun
    | cons c cs =>
      intro hc
      cases hc
      exact hletter cs rfl

theorem readExponent_append {exponent : Option (Bool × List Char)} {r : List Char}
    (hexponent : ∀ e ∈ exponent, IsRun e.2) (hr : StopsRun r)
    (hnone : exponent = none → r.head? ≠ some 'e') :
    readExponent (exponentText exponent ++ r) = .ok exponent := by
  rcases exponent with _ | ⟨signed, digits⟩
  · cases r with
    | nil => rfl
    | cons c r =>
      have hc : c ≠ 'e' := fun hc => hnone rfl (congrArg some hc)
      rw [exponentText, List.nil_append, readExponent]
      · rintro cs ⟨⟩
        exact hc rfl
      · rintro cs ⟨⟩
        exact hc rfl
      · rintro cs ⟨⟩
        exact hc rfl
  · have hrun : IsRun digits := hexponent _ rfl
    have hdigit := startsWithDigit_append hrun.starts r
    -- the digits do not begin with a sign
    have hsign : ∀ cs, digits ++ r ≠ '-' :: cs := by
      intro cs hcs
      rw [hcs] at hdigit
      cases hdigit
    cases signed with
    | true =>
      simp only [exponentText, if_true, List.cons_append, List.nil_append]
      rw [readExponent, if_pos hdigit, digitRun_append hrun hr]
      exact fun cs h => hsign cs h
    | false =>
      simp only [exponentText, Bool.false_eq_true, if_false, List.cons_append, List.nil_append]
      rw [readExponent, if_pos hdigit, digitRun_append hrun hr]
      · exact fun cs h => hsign _ h
      · exact fun cs h => hsign _ h

/-- Digits and a fraction are cut off where a numeral is read. -/
theorem exists_parts {cs : List Char} (hcs : startsWithDigit cs = true) :
    ∃ last tail, cs = digitRun cs ++ last ∧ last = fractionText (readFraction last) ++ tail ∧
      cs.drop (digitRun cs).length = last ∧
      last.drop (fractionText (readFraction last)).length = tail ∧ IsRun (digitRun cs) ∧
      (∀ digits ∈ readFraction last, IsRun digits) ∧ StopsRun tail ∧
      (readFraction last = none → tail = last) := by
  obtain ⟨last, hwhole, hrun, hlast⟩ := exists_run hcs
  have hdrop : cs.drop (digitRun cs).length = last :=
    List.append_cancel_left ((List.prefix_iff_eq_append.mp (digitRun_ahead cs)).trans hwhole)
  obtain ⟨tail, hfraction, hruns, htail, hsame⟩ := exists_fraction hlast
  have hdrop' : last.drop (fractionText (readFraction last)).length = tail :=
    List.append_cancel_left
      ((List.prefix_iff_eq_append.mp (fractionText_ahead last)).trans hfraction)
  exact ⟨last, tail, hwhole, hfraction, hdrop, hdrop', hrun, hruns, htail, hsame⟩

/-- A numeral that is read is what the text begins with, and nothing continues it. -/
theorem exists_rest_of_read {cs : List Char} (hcs : startsWithDigit cs = true) {n : Numeral}
    (h : read cs = .ok n) : ∃ r, cs = n.text ++ r ∧ n.WellFormed ∧ n.Ends r := by
  obtain ⟨last, tail, hwhole, hfraction, hdrop, hdrop', hrun, hruns, htail, hsame⟩ :=
    exists_parts hcs
  simp only [read, hdrop, hdrop'] at h
  split at h
  · cases h
  · next hpoint =>
    split at h
    · next exponent hread =>
      cases h
      obtain ⟨r, hr, hexponent, hstops, hnone⟩ := exists_exponent htail hread
      refine ⟨r, ?_, ⟨hrun, hruns, hexponent⟩, hstops, ?_, ?_⟩
      · rw [text, List.append_assoc, List.append_assoc, ← hr, ← hfraction, ← hwhole]
      · intro he
        rw [(hnone he).1]
        exact (hnone he).2
      · intro he
        rw [(hnone he).1]
        cases hf : readFraction last with
        | none =>
          rw [hsame hf]
          exact hf
        | some digits =>
          rw [hf, Option.isSome_some, Bool.true_and, Bool.not_eq_true, Option.isSome_eq_false_iff,
            Option.isNone_iff_eq_none] at hpoint
          exact hpoint
    · cases h

/-- A numeral that nothing continues is read as it is written. -/
theorem read_text_append {n : Numeral} {r : List Char} (hform : n.WellFormed) (hends : n.Ends r) :
    read (n.text ++ r) = .ok n := by
  rcases n with ⟨whole, fraction, exponent⟩
  -- neither the exponent nor what follows continues the digits or is a fraction
  have htail : StopsRun (exponentText exponent ++ r) ∧
      readFraction (exponentText exponent ++ r) = none := by
    rcases exponent with _ | ⟨signed, digits⟩
    · exact ⟨hends.stops, hends.no_fraction rfl⟩
    · exact ⟨stopsRun_cons.mpr rfl, rfl⟩
  have hlast : StopsRun (fractionText fraction ++ (exponentText exponent ++ r)) := by
    cases fraction with
    | none => exact htail.1
    | some digits => exact stopsRun_cons.mpr rfl
  have hfraction := readFraction_append hform.fraction htail.1 fun _ => htail.2
  have hexponent := readExponent_append hform.exponent hends.stops hends.no_exponent
  simp only [text, List.append_assoc]
  simp only [read, digitRun_append hform.whole hlast, List.drop_left, hfraction, htail.2,
    hexponent, Option.isSome_none, Bool.and_false, Bool.false_eq_true, if_false]

/-- What is read from a text is the numeral that it begins with and that nothing continues. -/
theorem read_eq_ok_iff {cs : List Char} (hcs : startsWithDigit cs = true) {n : Numeral} :
    read cs = .ok n ↔ ∃ r, cs = n.text ++ r ∧ n.WellFormed ∧ n.Ends r := by
  refine ⟨exists_rest_of_read hcs, ?_⟩
  rintro ⟨r, rfl, hform, hends⟩
  exact read_text_append hform hends

variable {n : Numeral} {r y : List Char}

/-- A numeral that is not continued is not continued by less text. -/
theorem Ends.cut (h : n.Ends (r ++ y)) : n.Ends r := by
  cases r with
  | nil => exact ⟨stopsRun_nil, fun _ => nofun, fun _ => rfl⟩
  | cons c r =>
    refine ⟨h.stops, h.no_exponent, fun he => ?_⟩
    have hfraction := readFraction_eq_none_iff.mp (h.no_fraction he)
    rw [readFraction_eq_none_iff]
    rintro _ ⟨⟩
    cases hdigit : startsWithDigit r with
    | false => rfl
    | true => exact (startsWithDigit_append hdigit y).symm.trans (hfraction _ rfl)

/-- A numeral that is not continued is not continued by a blank and further text. -/
theorem Ends.before_blank {w : Char} (h : n.Ends r) (hw : Text.isBlank w = true) (y : List Char) :
    n.Ends (r ++ w :: y) := by
  cases r with
  | nil =>
    refine ⟨stopsRun_cons.mpr (isDigitOrSeparator_of_isBlank hw), fun _ hc => ?_, fun _ => ?_⟩
    · exact ne_of_isBlank hw (c := 'e') rfl (Option.some.inj hc)
    · rw [readFraction_eq_none_iff]
      intro cs hcs
      exact absurd (List.cons.inj hcs).1 (ne_of_isBlank hw rfl)
  | cons c r =>
    refine ⟨h.stops, h.no_exponent, fun he => ?_⟩
    have hfraction := readFraction_eq_none_iff.mp (h.no_fraction he)
    rw [readFraction_eq_none_iff]
    rintro _ ⟨⟩
    cases r with
    | nil => exact isDecimalDigit_of_isBlank hw
    | cons d r => exact hfraction (d :: r) rfl

theorem read_cut {x y : List Char} (hx : startsWithDigit x = true) (h : read (x ++ y) = .ok n)
    (hahead : n.text <+: x) : read x = .ok n := by
  obtain ⟨r, hr, hform, hends⟩ := (read_eq_ok_iff (startsWithDigit_append hx y)).mp h
  obtain ⟨r', rfl⟩ := hahead
  rw [List.append_assoc, List.append_cancel_left_eq] at hr
  subst hr
  exact (read_eq_ok_iff hx).mpr ⟨r', rfl, hform, hends.cut⟩

theorem read_before_blank {x : List Char} {w : Char} (hx : startsWithDigit x = true)
    (h : read x = .ok n) (hw : Text.isBlank w = true) (y : List Char) :
    read (x ++ w :: y) = .ok n := by
  obtain ⟨r, rfl, hform, hends⟩ := (read_eq_ok_iff hx).mp h
  rw [List.append_assoc]
  refine (read_eq_ok_iff ?_).mpr ⟨_, rfl, hform, hends.before_blank hw y⟩
  rw [← List.append_assoc]
  exact startsWithDigit_append hx _

end Numeral

theorem scanNumber_eq {cs : List Char} {n : Numeral} (h : Numeral.read cs = .ok n) :
    scanNumber cs =
      { taken := n.text
        outcome := n.value.map fun value => (n.kind, some value)
        zeroPower := n.hasZeroPower } := by
  simp only [scanNumber, h]

theorem read_of_scanNumber {cs : List Char} {found : Kind × Option Literal}
    (h : (scanNumber cs).outcome = .ok found) : ∃ n, Numeral.read cs = .ok n := by
  unfold scanNumber at h
  split at h
  · cases h
  · next n hread => exact ⟨n, hread⟩

theorem scanNumber_cut {x y : List Char} {found : Kind × Option Literal}
    (hx : startsWithDigit x = true) (h : (scanNumber (x ++ y)).outcome = .ok found)
    (hahead : (scanNumber (x ++ y)).taken <+: x) : scanNumber x = scanNumber (x ++ y) := by
  obtain ⟨n, hread⟩ := read_of_scanNumber h
  rw [scanNumber_eq hread] at hahead
  rw [scanNumber_eq hread, scanNumber_eq (Numeral.read_cut hx hread hahead)]

theorem scanNumber_before_blank {x : List Char} {w : Char} {found : Kind × Option Literal}
    (hx : startsWithDigit x = true) (h : (scanNumber x).outcome = .ok found)
    (hw : Text.isBlank w = true) (y : List Char) : scanNumber (x ++ w :: y) = scanNumber x := by
  obtain ⟨n, hread⟩ := read_of_scanNumber h
  rw [scanNumber_eq hread, scanNumber_eq (Numeral.read_before_blank hx hread hw y)]

/-! ### Lexemes -/

theorem taken_scanWord (word : List Char) : (scanWord word).taken = word := by
  unfold scanWord
  simp only
  split <;> rfl

/-- A scan comes to the same on two texts that begin with one character if the scanner for the
kind of lexeme that begins there does. -/
theorem scan_congr {c : Char} {x x' : List Char}
    (hsymbol : longestSymbol (c :: x') = longestSymbol (c :: x))
    (hstring : c = '"' → scan c x = scanString x → scanString x' = scanString x)
    (hword : scan c x = scanWord (c :: x.takeWhile isWordPart) →
      x'.takeWhile isWordPart = x.takeWhile isWordPart)
    (hnumber : isDecimalDigit c = true → scan c x = scanNumber (c :: x) →
      scanNumber (c :: x') = scanNumber (c :: x)) : scan c x' = scan c x := by
  unfold scan at hstring hword hnumber ⊢
  rw [hsymbol]
  split
  · rfl
  · next hnone =>
    simp only [hnone] at hstring hword hnumber
    split
    · next hquote => exact hstring hquote (if_pos hquote)
    · next hquote =>
      rw [if_neg hquote] at hword hnumber
      split
      · next hstart => rw [hword (if_pos hstart)]
      · next hstart =>
        rw [if_neg hstart] at hnumber
        split
        · next hdigit => exact hnumber hdigit (if_pos hdigit)
        · rfl

/-- **A token does not depend on what comes after it.**  If the characters that a scan takes for a
token all lie in the first part of a text, the scan comes to the same on that part alone. -/
theorem scan_cut {c : Char} {x y : List Char} {found : Kind × Option Literal}
    (h : (scan c (x ++ y)).outcome = .ok found) (hahead : (scan c (x ++ y)).taken <+: c :: x) :
    scan c x = scan c (x ++ y) := by
  have hsymbol : longestSymbol (c :: x) = longestSymbol (c :: (x ++ y)) := by
    rcases longestSymbol_append (c :: x) y with heq | ⟨symbol, kind, heq, hlonger, -⟩
    · exact heq.symm
    · -- a longer symbol would have been taken
      rw [List.cons_append] at heq
      simp only [scan, heq] at hahead
      exact absurd hahead.length_le (Nat.not_le.mpr hlonger)
  refine scan_congr hsymbol ?_ ?_ ?_
  · rintro rfl hscan
    rw [hscan] at h hahead
    exact scanString_cut h hahead
  · intro hscan
    rw [hscan, taken_scanWord, List.prefix_cons_inj] at hahead
    exact takeWhile_cut hahead
  · intro hdigit hscan
    rw [hscan] at h hahead
    exact scanNumber_cut (x := c :: x) hdigit h hahead

/-- **A token that a text ends with also stands before a blank.**  If a scan comes to a token, it
comes to the same token when a blank and any further characters follow the text. -/
theorem scan_before_blank {c w : Char} {x : List Char} {found : Kind × Option Literal}
    (h : (scan c x).outcome = .ok found) (hw : Text.isBlank w = true) (y : List Char) :
    scan c (x ++ w :: y) = scan c x := by
  refine scan_congr (longestSymbol_before_blank hw (c :: x) y) ?_ ?_ ?_
  · intro _ hscan
    rw [hscan] at h
    exact scanString_append h _
  · intro _
    exact takeWhile_before (isWordPart_of_isBlank hw) x y
  · intro hdigit hscan
    rw [hscan] at h
    exact scanNumber_before_blank (x := c :: x) hdigit h hw y

/-! ### Lexers before longer texts -/

namespace Lexer

/-- A lexer at the same place with another text ahead. -/
def before (l : Lexer) (text : List Char) : Lexer := { l with rest := text }

theorem deliver_before (l : Lexer) (text : List Char) (s : Scan) :
    (l.before text).deliver s =
      { item := (l.deliver s).item, events := (l.deliver s).events
        after := (l.deliver s).after.before (text.drop s.taken.length) } := by
  unfold deliver
  simp only
  split <;> rfl

theorem skipBlanks_before (l : Lexer) (text : List Char) :
    (l.before text).skipBlanks =
      { l with
        mark := l.mark.after (text.takeWhile Text.isBlank)
        rest := text.dropWhile Text.isBlank } := by
  have hparts := List.prefix_iff_eq_append.mp (List.takeWhile_prefix Text.isBlank (l := text))
  have hrest := List.append_cancel_left (hparts.trans List.takeWhile_append_dropWhile.symm)
  simp only [skipBlanks, past, before, hrest]

/-- A lexeme comes after blanks, and does not begin with one. -/
theorem rest_of_skipBlanks {l : Lexer} {c : Char} {cs : List Char}
    (h : l.skipBlanks.rest = c :: cs) :
    l.rest = l.rest.takeWhile Text.isBlank ++ c :: cs ∧ Text.isBlank c = false := by
  have hdrop : l.rest.dropWhile Text.isBlank = c :: cs :=
    (congrArg Lexer.rest (skipBlanks_before l l.rest)).symm.trans h
  have hhead := List.head?_dropWhile_not Text.isBlank l.rest
  rw [hdrop] at hhead
  exact ⟨by rw [← hdrop, List.takeWhile_append_dropWhile], hhead⟩

/-- The blanks before a lexeme do not depend on what comes after it. -/
theorem skipBlanks_before_append {l : Lexer} {x cs : List Char} {c : Char}
    (hx : x.dropWhile Text.isBlank = c :: cs) (y : List Char) :
    (l.before (x ++ y)).skipBlanks = (l.before x).skipBlanks.before (c :: cs ++ y) := by
  have hblanks : (x ++ y).takeWhile Text.isBlank = x.takeWhile Text.isBlank := by
    rw [List.takeWhile_append, if_neg]
    intro hall
    have hlength := congrArg List.length
      (List.takeWhile_append_dropWhile (p := Text.isBlank) (l := x))
    rw [List.length_append, hall, hx, List.length_cons] at hlength
    omega
  have hrest : (x ++ y).dropWhile Text.isBlank = c :: cs ++ y := by
    rw [List.dropWhile_append, if_neg (by simp [hx]), hx]
  rw [skipBlanks_before, skipBlanks_before, hblanks, hrest]
  rfl

/-- A request that finds a lexeme finds the same one before a longer text, as long as the scan
comes to the same there. -/
theorem next_before_append {l : Lexer} {x y cs : List Char} {c : Char} (hfailed : l.failed = false)
    (hx : x.dropWhile Text.isBlank = c :: cs) (hscan : scan c (cs ++ y) = scan c cs) :
    (l.before (x ++ y)).next =
      { item := (l.before x).next.item, events := (l.before x).next.events
        after := (l.before x).next.after.before ((l.before x).next.after.rest ++ y) } := by
  have hshort : (l.before x).skipBlanks.rest = c :: cs := by rw [skipBlanks_before, hx]
  have hlong : (l.before (x ++ y)).skipBlanks.rest = c :: (cs ++ y) := by
    rw [skipBlanks_before_append hx]
    rfl
  have htaken := (scan_taken_ahead c cs).length_le
  rw [next_of_cons (l := l.before x) hfailed hshort,
    next_of_cons (l := l.before (x ++ y)) hfailed hlong,
    hscan, skipBlanks_before_append hx, deliver_before, rest_deliver]
  simp only [past, hshort]
  rw [List.drop_append_of_le_length htaken]

/-- A request takes the lexer over some of the characters that are left. -/
theorem exists_taken_next {l : Lexer} (hfailed : l.failed = false) :
    ∃ taken, l.rest = taken ++ l.next.after.rest ∧ l.next.after.mark = l.mark.after taken ∧
      l.next.after.file = l.file := by
  have hparts : l.rest = l.rest.takeWhile Text.isBlank ++ l.skipBlanks.rest :=
    (List.prefix_iff_eq_append.mp (List.takeWhile_prefix Text.isBlank)).symm
  rcases hrest : l.skipBlanks.rest with _ | ⟨c, cs⟩
  · rw [next_of_blank hfailed hrest]
    exact ⟨_, hparts, rfl, rfl⟩
  · have htaken := List.prefix_iff_eq_append.mp (scan_taken_ahead c cs)
    refine ⟨l.rest.takeWhile Text.isBlank ++ (scan c cs).taken, ?_, ?_, ?_⟩
    · rw [next_of_cons hfailed hrest, rest_deliver, past, hrest, List.append_assoc, htaken, ← hrest]
      exact hparts
    · rw [next_of_cons hfailed hrest, Mark.after_append]
      unfold deliver
      simp only
      split <;> rfl
    · rw [next_of_cons hfailed hrest]
      unfold deliver
      simp only
      split <;> rfl

end Lexer
end CurlyScript
