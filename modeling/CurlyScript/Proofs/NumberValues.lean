import Mathlib.Data.Nat.Digits.Defs
import Mathlib.Tactic.FieldSimp
import CurlyScript.Proofs.MaximalMunch
import CurlyScript.Proofs.Rounding

/-!
# The values of numbers

A numeral denotes a ratio: its digits, with the point where it is written, times a power of ten.
A whole number is that ratio itself, as long as it fits, and a binary floating point number is
what the ratio is rounded to.  The ratio is found in two ways that come to the same, from the
parts of a numeral and from its text without the separators.

A power of ten beyond the greatest whole number is refused even in front of a mantissa of zero.

## Main definitions

* `Decimal.ratio`, `Text.decimal?` — the ratio that a decimal text denotes.
* `Numeral.mantissa`, `Numeral.exponentValue`, `Numeral.exact` — the ratio, part by part.
* `Token.WritesNumber t n` — the kind and the value of the token are those of the numeral.

## Main results

* `Numeral.decimal?_text` — the text of a numeral denotes its ratio.
* `Numeral.rounds_decimal` — a floating point value is the rounded ratio.
* `accumulate_eq` — a run of digits is refused exactly if its number does not fit.
* `Numeral.value_of_int` — what a whole number comes to.
* `Numeral.value_eq_overflow_iff` — which whole numbers are refused.
* `Frontend.lex_numbers` — the numbers of a text have the values that are written.
* `Frontend.lex_integerOverflow_iff` — where a whole number is reported to be too large.
-/

namespace CurlyScript

/-! ### Decimal texts -/

namespace Text

/-- The number that decimal digits denote. -/
def decimalValue (digits : List Char) : ℕ :=
  Nat.ofDigits 10 (digits.map fun c => c.toNat - '0'.toNat).reverse

theorem decimalValue_append (as bs : List Char) :
    decimalValue (as ++ bs) = decimalValue as * 10 ^ bs.length + decimalValue bs := by
  simp only [decimalValue, List.map_append, List.reverse_append, Nat.ofDigits_append,
    List.length_reverse, List.length_map]
  ring

theorem digitsValue_eq (digits : List Char) : digitsValue digits = decimalValue digits := by
  unfold digitsValue decimalValue
  rw [Nat.ofDigits_eq_foldr, List.foldr_reverse, List.foldl_map]
  congr 1
  funext acc c
  simp only [Nat.cast_id, digitValue]
  ring

end Text

namespace Decimal

/-- The ratio that a decimal text denotes. -/
def ratio (d : Decimal) : ℚ :=
  (Text.decimalValue d.whole + Text.decimalValue d.fraction / 10 ^ d.fraction.length) *
    10 ^ d.exponent

/-- **A decimal text is read as the value nearest to its ratio.** -/
theorem rounds_toBinary64 (d : Decimal) : Binary64.Rounds d.ratio d.toBinary64 := by
  have hten : (10 : ℚ) ≠ 0 := by norm_num
  have hratio : d.ratio = (digitsValue (d.whole ++ d.fraction) : ℚ) *
      10 ^ (d.exponent - d.fraction.length) := by
    rw [Text.digitsValue_eq, Text.decimalValue_append, ratio, zpow_sub₀ hten, zpow_natCast]
    push_cast
    field_simp
  rw [hratio]
  exact Binary64.rounds_ofDecimal _ _

end Decimal

namespace Text

/-- The ratio that a text denotes, if it is a decimal text. -/
def decimal? (cs : List Char) : Option ℚ := (Decimal.read? cs).map Decimal.ratio

/-- Digits are cut off where something else begins. -/
theorem takeWhile_digits {digits rest : List Char} (hdigits : ∀ c ∈ digits, isDecimalDigit c = true)
    (hrest : startsWithDigit rest = false) :
    (digits ++ rest).takeWhile isDecimalDigit = digits ∧
      (digits ++ rest).dropWhile isDecimalDigit = rest := by
  rw [List.takeWhile_append_of_pos hdigits, List.dropWhile_append_of_pos hdigits]
  cases rest with
  | nil => exact ⟨List.append_nil _, rfl⟩
  | cons c rest =>
    have hc : ¬ isDecimalDigit c = true := by rw [show isDecimalDigit c = false from hrest]; nofun
    rw [List.takeWhile_cons_of_neg hc, List.dropWhile_cons_of_neg hc]
    exact ⟨List.append_nil _, rfl⟩

end Text

open Text (decimalValue decimal?)

@[simp] theorem bareDigits_append (as bs : List Char) :
    bareDigits (as ++ bs) = bareDigits as ++ bareDigits bs := List.filter_append _ _

/-- Without the separators a run is a text of digits, and not an empty one. -/
theorem IsRun.bareDigits {run : List Char} (h : IsRun run) :
    bareDigits run ≠ [] ∧ ∀ c ∈ bareDigits run, isDecimalDigit c = true := by
  constructor
  · cases run with
    | nil => cases h.starts
    | cons c run =>
      have hc : isDecimalDigit c = true := h.starts
      have hne : c ≠ '_' := by
        intro heq
        rw [heq] at hc
        cases hc
      exact List.ne_nil_of_mem (List.mem_filter.mpr ⟨List.mem_cons_self, bne_iff_ne.mpr hne⟩)
  · intro c hc
    obtain ⟨hmem, hne⟩ := List.mem_filter.mp hc
    have hpart := h.all c hmem
    rw [isDigitOrSeparator, Bool.or_eq_true, beq_iff_eq] at hpart
    exact hpart.resolve_right (bne_iff_ne.mp hne)

theorem IsRun.digits? {run : List Char} (h : IsRun run) :
    Decimal.digits? (CurlyScript.bareDigits run) =
      some (decimalValue (CurlyScript.bareDigits run)) := by
  obtain ⟨hne, hdigits⟩ := h.bareDigits
  rw [Decimal.digits?, if_pos, Text.digitsValue_eq]
  simpa [hne] using hdigits

/-! ### Runs that fit -/

/-- Digits only make a number greater. -/
theorem le_foldl_digits (digits : List Char) (number : ℕ) :
    number ≤ digits.foldl (fun value c => value * 10 + digitValue c) number := by
  induction digits generalizing number with
  | nil => exact le_rfl
  | cons c digits ih =>
    calc number ≤ number * 10 + digitValue c := by omega
      _ ≤ _ := ih _

/-- One more digit, if the number with it fits. -/
theorem checked_digit (number digit : ℕ) :
    (Machine.checkedMul number 10).bind (Machine.checkedAdd · digit) =
      Machine.checked (number * 10 + digit : ℕ) := by
  cases hproduct : Machine.checkedMul (number : ℤ) 10 with
  | none =>
    have hnone : Machine.checked (number * 10 : ℕ) = none := by
      rw [← hproduct, Machine.checkedMul]
      push_cast
      rfl
    exact (Machine.checked_eq_none (Nat.le_add_right _ _) hnone).symm
  | some product =>
    have hsome : Machine.checked (number * 10 : ℕ) = some product := by
      rw [← hproduct, Machine.checkedMul]
      push_cast
      rfl
    rw [Machine.checked_eq_some hsome, Option.bind_some, Machine.checkedAdd]
    push_cast
    rfl

/-- **A run of digits is refused exactly if its number does not fit.** -/
theorem accumulate_eq (run : List Char) :
    accumulate run = Machine.checked (decimalValue (bareDigits run)) := by
  have hfrom (digits : List Char) (number : ℕ) (h : Machine.checked number = some (number : ℤ)) :
      digits.foldlM (fun number c =>
        (Machine.checkedMul number 10).bind (Machine.checkedAdd · (digitValue c))) (number : ℤ) =
      Machine.checked
        (digits.foldl (fun value c => value * 10 + digitValue c) number : ℕ) := by
    induction digits generalizing number with
    | nil => exact h.symm
    | cons c digits ih =>
      rw [List.foldlM_cons, checked_digit, List.foldl_cons]
      cases hnext : Machine.checked (number * 10 + digitValue c : ℕ) with
      | none => exact (Machine.checked_eq_none (le_foldl_digits digits _) hnext).symm
      | some next =>
        cases Machine.checked_eq_some hnext
        exact ih _ hnext
  rw [← Text.digitsValue_eq]
  exact hfrom (bareDigits run) 0 rfl

/-! ### Numerals -/

namespace Numeral

/-- The number before the point. -/
def mantissa (n : Numeral) : ℕ := decimalValue (bareDigits n.whole)

/-- The digits behind the point. -/
def fractionDigits (n : Numeral) : List Char := bareDigits (n.fraction.getD [])

/-- The exponent with its sign, zero if there is none. -/
def exponentValue (n : Numeral) : ℤ :=
  match n.exponent with
  | none => 0
  | some (signed, run) =>
    if signed then -(decimalValue (bareDigits run) : ℤ) else decimalValue (bareDigits run)

/-- The ratio that a numeral denotes. -/
def exact (n : Numeral) : ℚ :=
  (n.mantissa + decimalValue n.fractionDigits / 10 ^ n.fractionDigits.length) * 10 ^ n.exponentValue

/-- A numeral without its separators, part by part. -/
def decimal (n : Numeral) : Decimal where
  whole := bareDigits n.whole
  fraction := n.fractionDigits
  exponent := n.exponentValue

theorem ratio_decimal (n : Numeral) : n.decimal.ratio = n.exact := rfl

/-- The number that an exponent comes to is the exponent itself, or else the greatest number with
its sign. -/
theorem power_eq (n : Numeral) :
    n.power = max (-Machine.greatest) (min n.exponentValue Machine.greatest) := by
  have hrun (run : List Char) : (accumulate run).getD Machine.greatest =
      min (decimalValue (bareDigits run) : ℤ) Machine.greatest := by
    rw [accumulate_eq, Machine.checked_natCast]
    split
    · next h => exact (min_eq_left h).symm
    · next h => exact (min_eq_right (not_le.mp h).le).symm
  have hgreatest : (0 : ℤ) ≤ Machine.greatest := by decide
  obtain ⟨whole, fraction, _ | ⟨_ | _, run⟩⟩ := n
  · rfl
  · show (accumulate run).getD Machine.greatest = max _ (min (decimalValue (bareDigits run) : ℤ) _)
    rw [hrun]
    omega
  · show -(accumulate run).getD Machine.greatest =
      max _ (min (-(decimalValue (bareDigits run) : ℤ)) _)
    rw [hrun]
    omega

theorem isFloat_iff (n : Numeral) :
    n.isFloat = true ↔ n.fraction.isSome = true ∨ n.exponentValue < 0 := by
  have hgreatest : (0 : ℤ) < Machine.greatest := by decide
  have hpower : n.power < 0 ↔ n.exponentValue < 0 := by
    rw [power_eq]
    omega
  rw [isFloat, Bool.or_eq_true, decide_eq_true_eq, hpower]

theorem hasZeroPower_iff (n : Numeral) :
    n.hasZeroPower = true ↔ n.exponent.isSome = true ∧ n.exponentValue = 0 := by
  have hgreatest : (0 : ℤ) < Machine.greatest := by decide
  have hpower : n.power = 0 ↔ n.exponentValue = 0 := by
    rw [power_eq]
    omega
  rw [hasZeroPower, Bool.and_eq_true, beq_iff_eq, hpower]

/-- The text of an exponent denotes the exponent. -/
theorem exponent?_text {n : Numeral} (hform : n.WellFormed) :
    Decimal.exponent? (bareDigits (exponentText n.exponent)) = some n.exponentValue := by
  unfold exponentValue
  cases hexponent : n.exponent with
  | none => rfl
  | some e =>
    obtain ⟨signed, run⟩ := e
    have hrun : IsRun run := hform.exponent _ hexponent
    cases signed with
    | true =>
      show Decimal.signedDigits? ('-' :: bareDigits run) = _
      rw [Decimal.signedDigits?, hrun.digits?]
      rfl
    | false =>
      show Decimal.signedDigits? (bareDigits run) = _
      obtain ⟨-, hdigits⟩ := hrun.bareDigits
      have hdigit : ∀ c cs, bareDigits run = c :: cs → isDecimalDigit c = true := by
        intro c cs heq
        exact hdigits c (heq ▸ List.mem_cons_self)
      -- the digits begin with no sign
      rw [Decimal.signedDigits?, hrun.digits?]
      · rfl
      · intro cs heq
        cases hdigit _ _ heq
      · intro cs heq
        cases hdigit _ _ heq

/-- The text of a numeral without its separators is a decimal text with the same parts. -/
theorem read?_text {n : Numeral} (hform : n.WellFormed) :
    Decimal.read? (bareDigits n.text) = some n.decimal := by
  obtain ⟨hwhole, hdigits⟩ := hform.whole.bareDigits
  have hexponent := exponent?_text hform
  have htail : startsWithDigit (bareDigits (exponentText n.exponent)) = false := by
    cases n.exponent with
    | none => rfl
    | some e => rfl
  have hpoint : startsWithDigit (bareDigits (fractionText n.fraction) ++
      bareDigits (exponentText n.exponent)) = false := by
    cases n.fraction with
    | none => exact htail
    | some run => rfl
  have hfraction : Decimal.afterPoint (bareDigits (fractionText n.fraction) ++
      bareDigits (exponentText n.exponent)) =
        (n.fractionDigits, bareDigits (exponentText n.exponent)) := by
    unfold fractionDigits
    cases hf : n.fraction with
    | none =>
      cases n.exponent with
      | none => rfl
      | some e => rfl
    | some run =>
      obtain ⟨-, hrun⟩ := (hform.fraction run hf).bareDigits
      obtain ⟨htake, hdrop⟩ := Text.takeWhile_digits hrun htail
      show (List.takeWhile _ _, List.dropWhile _ _) = _
      exact Prod.ext htake hdrop
  obtain ⟨htake, hdrop⟩ := Text.takeWhile_digits hdigits hpoint
  have htext : bareDigits n.text = bareDigits n.whole ++ (bareDigits (fractionText n.fraction) ++
      bareDigits (exponentText n.exponent)) := by
    rw [text, bareDigits_append, bareDigits_append, List.append_assoc]
  rw [htext, Decimal.read?]
  simp only [htake, hdrop, hfraction, hexponent, hwhole, false_and, if_false, Option.map_some]
  rfl

/-- **The text of a numeral without its separators denotes the ratio of the numeral.** -/
theorem decimal?_text {n : Numeral} (hform : n.WellFormed) :
    decimal? (bareDigits n.text) = some n.exact := by
  rw [decimal?, read?_text hform, Option.map_some, ratio_decimal]

/-- **The text of a numeral without its separators is always read as some value.** -/
theorem parse?_text {n : Numeral} (hform : n.WellFormed) :
    Binary64.parse? (bareDigits n.text) = some n.decimal.toBinary64 := by
  rw [Binary64.parse?, read?_text hform, Option.map_some]

example : decimal? (bareDigits "1_2.5e-1".toList) = some (5 / 4) := by decide +kernel

/-- **The floating point value of a numeral is what its ratio is rounded to.** -/
theorem rounds_decimal (n : Numeral) : Binary64.Rounds n.exact n.decimal.toBinary64 :=
  n.decimal.rounds_toBinary64

theorem value_of_float {n : Numeral} (hform : n.WellFormed) (h : n.isFloat = true) :
    n.value = .ok (.float n.decimal.toBinary64) := by
  have hfloat : (n.fraction.isSome || decide (n.power < 0)) = true := h
  simp only [value, literal, hfloat, if_true, parse?_text hform]

/-! ### Whole numbers -/

theorem ten_pow_gt {p : ℕ} (hp : 18 < p) : 2 ^ 63 - 1 < 10 ^ p := by
  calc 2 ^ 63 - 1 < 10 ^ 19 := by norm_num
    _ ≤ 10 ^ p := Nat.pow_le_pow_right (by norm_num) hp

/-- A number fits as long as it is below the sixty-third power of two. -/
theorem checked_eq (number : ℕ) :
    Machine.checked number = if number ≤ 2 ^ 63 - 1 then some (number : ℤ) else none := by
  rw [Machine.checked_natCast]
  have hgreatest : Machine.greatest = (2 ^ 63 - 1 : ℕ) := by decide
  rw [hgreatest]
  simp only [Int.ofNat_le]

/-- **A power of ten is there exactly if it fits**, whether it is the conversion of its exponent or
a product that comes to nothing otherwise. -/
theorem scale_eq {n : Numeral} (h : 0 ≤ n.exponentValue) :
    (Machine.short? n.power).bind (Machine.checkedPow 10) =
      Machine.checked (10 ^ n.exponentValue.toNat : ℕ) := by
  have hgreatest : Machine.greatestShort < Machine.greatest := by decide
  have hnonneg : (0 : ℤ) ≤ Machine.greatestShort := by decide
  have hpow : Machine.checkedPow 10 n.exponentValue.toNat =
      Machine.checked (10 ^ n.exponentValue.toNat : ℕ) := by
    have hten : 0 < 10 := by decide
    have hone := Machine.checkedPowFrom_eq hten 1 n.exponentValue.toNat rfl
    rwa [Nat.one_mul] at hone
  rw [Machine.short?, power_eq]
  split
  · next hshort =>
    have hpower : max (-Machine.greatest) (min n.exponentValue Machine.greatest) =
        n.exponentValue := by omega
    rw [hpower, Option.bind_some, hpow]
  · next hshort =>
    have hlarge : 18 < n.exponentValue.toNat := by
      have : (18 : ℤ) < Machine.greatestShort := by decide
      omega
    rw [checked_eq, if_neg (not_le.mpr (ten_pow_gt hlarge))]
    rfl

/-- The product of the digits and a power of ten that fits is there exactly if it fits. -/
theorem product_eq {n : Numeral} {scale : ℕ} (hscale : 0 < scale) :
    (accumulate n.whole).bind (Machine.checkedMul · scale) =
      Machine.checked (n.mantissa * scale : ℕ) := by
  rw [accumulate_eq]
  cases hwhole : Machine.checked (decimalValue (bareDigits n.whole)) with
  | none => exact (Machine.checked_eq_none (Nat.le_mul_of_pos_right _ hscale) hwhole).symm
  | some whole =>
    cases Machine.checked_eq_some hwhole
    rw [Option.bind_some, Machine.checkedMul, mantissa]
    push_cast
    rfl

/-- **What a whole number comes to.**  It is refused if its power of ten does not fit, or if the
product of that with the digits does not. -/
theorem value_of_int {n : Numeral} (h : n.isFloat = false) :
    n.value =
      if 2 ^ 63 - 1 < 10 ^ n.exponentValue.toNat ∨
          2 ^ 63 - 1 < n.mantissa * 10 ^ n.exponentValue.toNat then .error .integerOverflow
      else .ok (.int (n.mantissa * 10 ^ n.exponentValue.toNat : ℕ)) := by
  have hint : (n.fraction.isSome || decide (n.power < 0)) = false := h
  have hnonneg : 0 ≤ n.exponentValue := by
    have hnot := mt n.isFloat_iff.mpr (by rw [h]; exact Bool.false_ne_true)
    exact not_lt.mp fun hneg => hnot (.inr hneg)
  have hpos : 0 < 10 ^ n.exponentValue.toNat := Nat.pow_pos (by norm_num)
  simp only [value, literal, hint, Bool.false_eq_true, if_false, scale_eq hnonneg,
    checked_eq (10 ^ n.exponentValue.toNat)]
  by_cases hpower : 10 ^ n.exponentValue.toNat ≤ 2 ^ 63 - 1
  · simp only [if_pos hpower, not_lt.mpr hpower, false_or, product_eq hpos, checked_eq]
    by_cases hfits : n.mantissa * 10 ^ n.exponentValue.toNat ≤ 2 ^ 63 - 1
    · simp only [if_pos hfits, not_lt.mpr hfits, if_false]
    · simp only [if_neg hfits, not_le.mp hfits, if_true]
  · simp only [if_neg hpower, not_le.mp hpower, true_or, if_true]

/-- A numeral that has a value is a floating point number, or a whole number that fits. -/
theorem value_eq_ok {n : Numeral} {value : Literal} (hform : n.WellFormed)
    (h : n.value = .ok value) :
    (n.isFloat = true ∧ value = .float n.decimal.toBinary64) ∨
      (n.isFloat = false ∧ value = .int (n.mantissa * 10 ^ n.exponentValue.toNat : ℕ) ∧
        n.mantissa * 10 ^ n.exponentValue.toNat ≤ 2 ^ 63 - 1) := by
  cases hfloat : n.isFloat with
  | true =>
    rw [value_of_float hform hfloat] at h
    cases h
    exact .inl ⟨rfl, rfl⟩
  | false =>
    rw [value_of_int hfloat] at h
    split at h <;> cases h
    next hfits => exact .inr ⟨rfl, rfl, not_lt.mp fun hlarge => hfits (.inr hlarge)⟩

/-- **Which whole numbers are refused.**  Those that do not fit, and a zero in front of a power of
ten that does not. -/
theorem value_eq_overflow_iff {n : Numeral} (h : n.isFloat = false) :
    n.value = .error .integerOverflow ↔
      2 ^ 63 - 1 < n.mantissa * 10 ^ n.exponentValue.toNat ∨
        (n.mantissa = 0 ∧ 18 < n.exponentValue.toNat) := by
  have hrefused : n.value = .error .integerOverflow ↔
      2 ^ 63 - 1 < 10 ^ n.exponentValue.toNat ∨
        2 ^ 63 - 1 < n.mantissa * 10 ^ n.exponentValue.toNat := by
    rw [value_of_int h]
    split
    · next hlarge => exact iff_of_true rfl hlarge
    · next hfits => exact iff_of_false nofun hfits
  have hpower : 2 ^ 63 - 1 < 10 ^ n.exponentValue.toNat ↔ 18 < n.exponentValue.toNat := by
    refine ⟨fun hlarge => ?_, ten_pow_gt⟩
    by_contra hsmall
    have hle : 10 ^ n.exponentValue.toNat ≤ 10 ^ 18 :=
      Nat.pow_le_pow_right (by norm_num) (not_lt.mp hsmall)
    exact absurd (lt_of_lt_of_le hlarge hle) (by norm_num)
  rw [hrefused]
  by_cases hzero : n.mantissa = 0
  · rw [hpower, hzero, Nat.zero_mul]
    simp
  · -- any other mantissa makes the number at least as great as the power
    have hle : 10 ^ n.exponentValue.toNat ≤ n.mantissa * 10 ^ n.exponentValue.toNat :=
      Nat.le_mul_of_pos_left _ (Nat.pos_of_ne_zero hzero)
    omega

/-- A numeral without a value is too large. -/
theorem eq_overflow_of_value {n : Numeral} {cause : LexicalError} (hform : n.WellFormed)
    (h : n.value = .error cause) : cause = .integerOverflow := by
  cases hfloat : n.isFloat with
  | true =>
    rw [value_of_float hform hfloat] at h
    cases h
  | false =>
    rw [value_of_int hfloat] at h
    split at h <;> cases h
    rfl

/-! ### Exponents without digits -/

theorem readExponent_invalid {cs taken : List Char}
    (h : readExponent cs = .error (taken, .invalidNumber)) :
    ∃ signed rest, taken = exponentText (some (signed, [])) ∧ cs = taken ++ rest ∧
      startsWithDigit rest = false := by
  unfold readExponent at h
  split at h
  · cases h
  · next rest _ =>
    split at h
    · cases h
    · next hdigit =>
      cases h
      exact ⟨true, rest, rfl, rfl, Bool.not_eq_true _ ▸ hdigit⟩
  · next rest _ _ =>
    split at h
    · cases h
    · next hdigit =>
      cases h
      exact ⟨false, rest, rfl, rfl, Bool.not_eq_true _ ▸ hdigit⟩
  · cases h

/-- A text that is no number is a numeral whose exponent has no digits. -/
theorem read_invalid {cs taken : List Char} (hcs : startsWithDigit cs = true)
    (h : read cs = .error (taken, .invalidNumber)) :
    ∃ whole fraction signed rest, IsRun whole ∧ (∀ run ∈ fraction, IsRun run) ∧
      taken = text ⟨whole, fraction, some (signed, [])⟩ ∧ cs = taken ++ rest ∧
      startsWithDigit rest = false := by
  obtain ⟨last, tail, hwhole, hfraction, hdrop, hdrop', hrun, hruns, -, -⟩ := exists_parts hcs
  simp only [read, hdrop, hdrop'] at h
  split at h
  · cases h
  · split at h
    · cases h
    · next taken' cause hread =>
      cases h
      obtain ⟨signed, rest, rfl, htail, hrest⟩ := readExponent_invalid hread
      refine ⟨digitRun cs, readFraction last, signed, rest, hrun, hruns, rfl, ?_, hrest⟩
      rw [List.append_assoc, List.append_assoc, ← htail, ← hfraction, ← hwhole]

end Numeral

/-! ### Scans -/

theorem mem_of_isDecimalDigit {c : Char} (hc : isDecimalDigit c = true) :
    c ∈ ['0', '1', '2', '3', '4', '5', '6', '7', '8', '9'] := by
  rw [isDecimalDigit, Bool.and_eq_true, decide_eq_true_eq, decide_eq_true_eq] at hc
  have hlow : 48 ≤ c.toNat := hc.1
  have hhigh : c.toNat ≤ 57 := hc.2
  have hmem : c.toNat ∈ List.range' 48 10 := by
    rw [List.mem_range'_1]
    omega
  rw [← Char.ofNat_toNat c]
  exact List.mem_map_of_mem (f := Char.ofNat) hmem

/-- A digit begins a number and nothing else. -/
theorem scan_of_isDecimalDigit {c : Char} (hc : isDecimalDigit c = true) (cs : List Char) :
    scan c cs = scanNumber (c :: cs) := by
  have hothers : ['0', '1', '2', '3', '4', '5', '6', '7', '8', '9'].all
      (fun d => !Symbol.isStart [d] && d != '"' && !isWordStart d) = true := by decide
  have hother := List.all_eq_true.mp hothers c (mem_of_isDecimalDigit hc)
  simp only [Bool.and_eq_true, Bool.not_eq_true', bne_iff_ne] at hother
  obtain ⟨⟨hstart, hquote⟩, hword⟩ := hother
  have hsymbol : longestSymbol (c :: cs) = none := by
    rw [longestSymbol, extendSymbol]
    exact if_neg (by simp [hstart])
  simp only [scan, hsymbol, if_neg hquote, hword, Bool.false_eq_true, if_false, hc, if_true]

/-- Before a numeral that nothing continues a scan takes it and asks for its value. -/
theorem exists_scan_numeral {n : Numeral} {rest : List Char} (hform : n.WellFormed)
    (hends : n.Ends rest) :
    ∃ c cs, n.text ++ rest = c :: cs ∧ (scan c cs).taken = n.text ∧
      (scan c cs).outcome = n.value.map fun value => (n.kind, some value) := by
  have hread := Numeral.read_text_append hform hends
  have hdigit : startsWithDigit (n.text ++ rest) = true := by
    rw [Numeral.text, List.append_assoc, List.append_assoc]
    exact startsWithDigit_append hform.whole.starts _
  cases hahead : n.text ++ rest with
  | nil =>
    rw [hahead] at hdigit
    cases hdigit
  | cons c cs =>
    rw [hahead] at hread hdigit
    have hscan := (scan_of_isDecimalDigit hdigit cs).trans (scanNumber_eq hread)
    exact ⟨c, cs, rfl, by rw [hscan], by rw [hscan]⟩

/-- A scan that comes to a number has read a numeral. -/
theorem exists_numeral_of_scan {c : Char} {cs : List Char} {kind : Kind} {literal : Option Literal}
    (h : (scan c cs).outcome = .ok (kind, literal))
    (hkind : kind = .literal .int ∨ kind = .literal .float) :
    ∃ n : Numeral, n.WellFormed ∧ (scan c cs).taken = n.text ∧ kind = n.kind ∧
      (scan c cs).zeroPower = n.hasZeroPower ∧ ∃ value, n.value = .ok value ∧
        literal = some value := by
  rcases scan_cases c cs with ⟨symbol, found, hsymbol, hscan⟩ | ⟨rfl, hscan⟩ | ⟨-, hscan⟩ |
    ⟨hdigit, hscan⟩ | hscan
  · rw [hscan] at h
    cases h
    rcases kind_of_longestSymbol hsymbol with ⟨_, rfl⟩ | ⟨_, rfl⟩ <;> simp at hkind
  · rw [hscan] at h
    obtain ⟨contents, hcontents⟩ := contents_of_scanString h
    simp only [scanString, hcontents] at h
    cases h
    simp at hkind
  · rw [hscan] at h
    rcases kind_of_scanWord h with ⟨_, rfl⟩ | rfl <;> simp at hkind
  · rw [hscan] at h
    obtain ⟨n, value, hread, hvalue, rfl, rfl⟩ := exists_value_of_scanNumber h
    have hcs : startsWithDigit (c :: cs) = true := hdigit
    obtain ⟨-, -, hform, -⟩ := Numeral.exists_rest_of_read hcs hread
    rw [hscan, scanNumber_eq hread]
    exact ⟨n, hform, rfl, rfl, rfl, value, hvalue, rfl⟩
  · rw [hscan] at h
    cases h

/-- A scan that comes to no number has read a numeral whose exponent has no digits. -/
theorem scan_invalid {c : Char} {cs : List Char}
    (h : (scan c cs).outcome = .error .invalidNumber) :
    ∃ whole fraction signed rest, IsRun whole ∧ (∀ run ∈ fraction, IsRun run) ∧
      (scan c cs).taken = Numeral.text ⟨whole, fraction, some (signed, [])⟩ ∧
      c :: cs = (scan c cs).taken ++ rest ∧ startsWithDigit rest = false := by
  rcases scan_cases c cs with ⟨symbol, found, -, hscan⟩ | ⟨-, hscan⟩ | ⟨-, hscan⟩ |
    ⟨hdigit, hscan⟩ | hscan
  · rw [hscan] at h
    cases h
  · rw [hscan, scanString] at h
    split at h <;> cases h
  · rw [hscan, scanWord] at h
    split at h <;> cases h
  · rw [hscan] at h ⊢
    unfold scanNumber at h ⊢
    split at h
    · next taken cause hread =>
      cases h
      exact Numeral.read_invalid hdigit hread
    · next n hread =>
      -- a numeral that is read has a value, or else it is too large
      cases hvalue : n.value with
      | ok value =>
        rw [hvalue] at h
        cases h
      | error cause =>
        rw [hvalue] at h
        cases h
        have hcs : startsWithDigit (c :: cs) = true := hdigit
        obtain ⟨-, -, hform, -⟩ := Numeral.exists_rest_of_read hcs hread
        cases Numeral.eq_overflow_of_value hform hvalue
  · rw [hscan] at h
    cases h

/-! ### Tokens -/

/-- A token writes a number: its lexeme is the text of the numeral, its kind says whether that has
a fraction or shrinks, and its value is the ratio of the numeral, as it is if it is whole and
rounded if not. -/
structure Token.WritesNumber (t : Token) (n : Numeral) : Prop where
  /-- The parts of the numeral are runs of digits. -/
  form : n.WellFormed
  /-- They are written as the token is. -/
  text_eq : n.text = t.lexeme.toList
  /-- A fraction or a negative exponent makes a floating point number. -/
  float_iff : t.kind = .literal .float ↔ n.fraction.isSome = true ∨ n.exponentValue < 0
  /-- A whole number is exact, and it fits. -/
  int_value : t.kind = .literal .int → ∃ value : ℤ, t.literal = some (.int value) ∧
    (value : ℚ) = n.mantissa * 10 ^ n.exponentValue ∧ 0 ≤ value ∧ value ≤ 2 ^ 63 - 1
  /-- A floating point number is what the text without its separators is rounded to. -/
  float_value : t.kind = .literal .float → ∃ ratio value,
    decimal? (bareDigits t.lexeme.toList) = some ratio ∧
      Binary64.parse? (bareDigits t.lexeme.toList) = some value ∧
      t.literal = some (.float value) ∧ ∀ x, Binary64.Rounds ratio x ↔ x = value

namespace Token.WritesNumber

variable {t : Token} {n : Numeral}

/-- A token writes one number only. -/
theorem unique {m : Numeral} (h : t.WritesNumber n) (hm : m.WellFormed)
    (htext : m.text = t.lexeme.toList) : m = n :=
  Numeral.eq_of_text hm h.form (htext.trans h.text_eq.symm)

theorem of_value {value : Literal} (hform : n.WellFormed) (htext : n.text = t.lexeme.toList)
    (hkind : t.kind = n.kind) (hvalue : n.value = .ok value) (hliteral : t.literal = some value) :
    t.WritesNumber n := by
  have hfloat : t.kind = .literal .float ↔ n.isFloat = true := by
    rw [hkind, Numeral.kind]
    cases n.isFloat <;> decide
  have hint : t.kind = .literal .int ↔ n.isFloat = false := by
    rw [hkind, Numeral.kind]
    cases n.isFloat <;> decide
  refine ⟨hform, htext, hfloat.trans n.isFloat_iff, ?_, ?_⟩
  · intro h
    rcases Numeral.value_eq_ok hform hvalue with ⟨hisFloat, -⟩ | ⟨-, rfl, hfits⟩
    · rw [hint.mp h] at hisFloat
      cases hisFloat
    · refine ⟨_, hliteral, ?_, Int.natCast_nonneg _, (Int.ofNat_le.mpr hfits).trans (by norm_num)⟩
      -- the exponent of a whole number is not negative
      have hnonneg : ¬ n.exponentValue < 0 := fun hneg => by
        have := n.isFloat_iff.mpr (.inr hneg)
        rw [hint.mp h] at this
        cases this
      have hpower : n.exponentValue = n.exponentValue.toNat := by omega
      rw [hpower, zpow_natCast, Int.toNat_natCast]
      push_cast
      rfl
  · intro h
    rcases Numeral.value_eq_ok hform hvalue with ⟨-, rfl⟩ | ⟨hisFloat, -, -⟩
    · refine ⟨n.exact, n.decimal.toBinary64, ?_, ?_, hliteral, ?_⟩
      · rw [← htext]
        exact Numeral.decimal?_text hform
      · rw [← htext]
        exact Numeral.parse?_text hform
      · intro x
        constructor
        · intro hx
          exact hx.unique n.rounds_decimal
        · rintro rfl
          exact n.rounds_decimal
    · rw [hfloat.mp h] at hisFloat
      cases hisFloat

end Token.WritesNumber

/-! ### Whole texts -/

namespace Frontend

open Lexer (LooksAt spanBehind)

/-- **The numbers of a text have the values that are written.**

A token for a number writes one numeral, and its kind and its value are those of that numeral.
There is one warning about it if it has an exponent that comes to zero, and none otherwise.  The
text of a numeral always denotes a ratio, so the error that something is no number is about an
exponent without digits. -/
theorem lex_numbers (file text : String) :
    (∀ t ∈ (lex file text).1.tokens, t.kind = .literal .int ∨ t.kind = .literal .float →
      ∃ n : Numeral, t.WritesNumber n ∧
        (∀ m : Numeral, m.WellFormed → m.text = t.lexeme.toList → m = n) ∧
        (findings (lex file text).2).count
            ⟨.warn, "lexer", "Number literal with power of 0", t.span⟩ =
          if n.exponent.isSome = true ∧ n.exponentValue = 0 then 1 else 0) ∧
    (∀ n : Numeral, n.WellFormed → ∃ ratio value, decimal? (bareDigits n.text) = some ratio ∧
      Binary64.parse? (bareDigits n.text) = some value) ∧
    ∀ span, .failed .invalidNumber span ∈ (Lexer.ofText file text).tokenize.2 →
      ∃ before whole fraction signed rest, IsRun whole ∧ (∀ run ∈ fraction, IsRun run) ∧
        startsWithDigit rest = false ∧
        LooksAt file text before (Numeral.text ⟨whole, fraction, some (signed, [])⟩ ++ rest) ∧
        span = spanBehind file before (Numeral.text ⟨whole, fraction, some (signed, [])⟩) := by
  refine ⟨?_, ?_, ?_⟩
  · intro t ht hkind
    have hend : t.isEnd = false := by
      rcases hkind with hkind | hkind <;> rw [Token.isEnd, hkind] <;> rfl
    obtain ⟨before, c, cs, hlooks, houtcome, hlexeme, hspan⟩ :=
      Lexer.exists_looksAt_of_mem (Lexer.mem_collect_of_mem_tokens ht hend)
    obtain ⟨n, hform, htaken, hkind', hzero, value, hvalue, hliteral⟩ :=
      exists_numeral_of_scan houtcome hkind
    have htext : n.text = t.lexeme.toList := by rw [hlexeme, String.toList_ofList, htaken]
    have hwrites := Token.WritesNumber.of_value hform htext hkind' hvalue hliteral
    refine ⟨n, hwrites, fun m => hwrites.unique, ?_⟩
    have hcount := (Lexer.count_warning _ _).trans hlooks.count_zeroPower
    rw [hspan]
    refine Eq.trans hcount ?_
    rw [hzero]
    simp only [n.hasZeroPower_iff]
  · intro n hform
    exact ⟨_, _, Numeral.decimal?_text hform, Numeral.parse?_text hform⟩
  · intro span hspan
    obtain ⟨before, c, cs, hlooks, houtcome, rfl⟩ := Lexer.exists_looksAt_of_failed hspan
    obtain ⟨whole, fraction, signed, rest, hwhole, hfraction, htaken, hcs, hrest⟩ :=
      scan_invalid houtcome
    rw [hcs, htaken] at hlooks
    exact ⟨before, whole, fraction, signed, rest, hwhole, hfraction, hrest, hlooks, by rw [htaken]⟩

/-- **Where a whole number is reported to be too large.**

At a numeral without a fraction whose exponent is not negative, the lexer fails with that error
exactly if the number does not fit, or if the mantissa is zero and the power of ten alone does
not. -/
theorem lex_integerOverflow_iff {file text : String} {before rest : List Char} {n : Numeral}
    (hlooks : LooksAt file text before (n.text ++ rest)) (hform : n.WellFormed)
    (hends : n.Ends rest) (hfraction : n.fraction = none) (hexponent : 0 ≤ n.exponentValue) :
    ((lex file text).1.hadError = true ∧
      (Lexer.ofText file text).tokenize.2.filter LexerEvent.isFailure =
        [.failed .integerOverflow (spanBehind file before n.text)]) ↔
      2 ^ 63 - 1 < n.mantissa * 10 ^ n.exponentValue.toNat ∨
        (n.mantissa = 0 ∧ 18 < n.exponentValue) := by
  have hfloat : n.isFloat = false := by
    rw [← Bool.not_eq_true, n.isFloat_iff, hfraction]
    simp [hexponent]
  obtain ⟨c, cs, hahead, htaken, houtcome⟩ := exists_scan_numeral hform hends
  rw [hahead] at hlooks
  rw [← htaken]
  have hscan : (scan c cs).outcome = .error .integerOverflow ↔
      2 ^ 63 - 1 < n.mantissa * 10 ^ n.exponentValue.toNat ∨
        (n.mantissa = 0 ∧ 18 < n.exponentValue) := by
    have hlarge : 18 < n.exponentValue ↔ 18 < n.exponentValue.toNat := by omega
    rw [hlarge, ← Numeral.value_eq_overflow_iff hfloat, houtcome]
    cases n.value with
    | ok value => exact iff_of_false nofun nofun
    | error cause => simp [Except.map]
  rw [← hscan]
  constructor
  · rintro ⟨-, hfailures⟩
    rw [← hlooks.failed_mem_iff]
    have hmem := List.mem_singleton_self
      (LexerEvent.failed .integerOverflow (spanBehind file before (scan c cs).taken))
    rw [← hfailures] at hmem
    exact (List.mem_filter.mp hmem).1
  · intro hcause
    obtain ⟨hfailures, herror⟩ := hlooks.failures_eq hcause
    exact ⟨herror, hfailures⟩

/-- A one with nineteen zeros is refused. -/
theorem lex_integerOverflow_large :
    (lex "t" "10e18").1.hadError = true ∧
      (Lexer.ofText "t" "10e18").tokenize.2.filter LexerEvent.isFailure =
        [.failed .integerOverflow (spanBehind "t" [] ['1', '0', 'e', '1', '8'])] := by
  have hread : Numeral.read ['1', '0', 'e', '1', '8'] =
      .ok ⟨['1', '0'], none, some (false, ['1', '8'])⟩ := rfl
  obtain ⟨rest, hrest, hform, hends⟩ := Numeral.exists_rest_of_read rfl hread
  have hlooks : LooksAt "t" "10e18" [] ['1', '0', 'e', '1', '8'] := Lexer.looksAt_start rfl rfl
  rw [hrest] at hlooks
  exact (lex_integerOverflow_iff hlooks hform hends rfl (by decide)).mpr (.inl (by decide))

/-- A zero in front of a power of ten that does not fit is refused, although it fits. -/
theorem lex_integerOverflow_zero :
    ∃ n : Numeral, LooksAt "t" "0e19" [] (n.text ++ []) ∧ n.WellFormed ∧ n.Ends [] ∧
      n.fraction = none ∧ n.exponentValue = 19 ∧
      (lex "t" "0e19").1.hadError = true ∧
      (Lexer.ofText "t" "0e19").tokenize.2.filter LexerEvent.isFailure =
        [.failed .integerOverflow (spanBehind "t" [] n.text)] ∧
      ¬ 2 ^ 63 - 1 < n.mantissa * 10 ^ n.exponentValue.toNat := by
  have hread : Numeral.read ['0', 'e', '1', '9'] =
      .ok ⟨['0'], none, some (false, ['1', '9'])⟩ := rfl
  obtain ⟨-, -, hform, -⟩ := Numeral.exists_rest_of_read rfl hread
  have hlooks : LooksAt "t" "0e19" [] ['0', 'e', '1', '9'] := Lexer.looksAt_start rfl rfl
  have hcause : (scan '0' ['e', '1', '9']).outcome = .error .integerOverflow := rfl
  obtain ⟨hfailures, herror⟩ := hlooks.failures_eq hcause
  refine ⟨⟨['0'], none, some (false, ['1', '9'])⟩, hlooks, hform, Numeral.ends_nil _, rfl, ?_,
    herror, hfailures, ?_⟩
  · decide
  · decide

end Frontend
end CurlyScript
