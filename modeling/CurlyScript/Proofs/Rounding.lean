import Mathlib.Algebra.Order.Field.Power
import Mathlib.Algebra.Order.Field.Rat
import Mathlib.Tactic.Linarith
import Mathlib.Tactic.NormNum
import Mathlib.Tactic.Positivity
import Mathlib.Tactic.Ring
import CurlyScript.Binary64.Rounding

/-!
# Decimal digits are rounded correctly

The values that the bits of a binary64 number can have, in exact rational arithmetic, and the
proof that `Binary64.ofDecimal` picks the right one.  The magnitudes number the values in
increasing order, so that the values below and above a given one are found by counting; a
value is at the same time a significand times a power of two, and the significand that is
computed is the integer nearest to a ratio.

## Main definitions

* `Binary64.absValue` — the value of a finite number, up to its sign.
* `Binary64.Rounds r x` — `x` is the number that `r` is rounded to: a nearest one, of two
  nearest ones the one whose significand is even, and infinity from halfway between the
  greatest finite value and `2 ^ 1024` on.

## Main results

* `Binary64.strictMono_units` — the magnitudes are ordered as the values are.
* `Binary64.Rounds.unique` — there is one number at most that a ratio is rounded to.
* `Binary64.rounds_ofRatio`, `Binary64.rounds_ofDecimal` — the number computed is the one.
-/

namespace CurlyScript
namespace Binary64

/-! ### The values -/

/-- The value of a finite number, up to its sign. -/
def absValue (x : Binary64) : ℚ := x.significand * 2 ^ x.scale

/-- The value of the number with a given magnitude, in multiples of the least positive value.
Nothing is said about infinity here: the count goes on as if the exponent had more bits. -/
def units (k : ℕ) : ℕ :=
  (if k / 2 ^ 52 = 0 then k % 2 ^ 52 else 2 ^ 52 + k % 2 ^ 52) * 2 ^ (k / 2 ^ 52 - 1)

/-- The least positive value. -/
def leastValue : ℚ := 2 ^ (-1074 : ℤ)

theorem leastValue_pos : 0 < leastValue := zpow_pos (by norm_num) _

theorem two_pow_mul_leastValue (k : ℕ) : 2 ^ k * leastValue = 2 ^ ((k : ℤ) - 1074) := by
  rw [leastValue, ← zpow_natCast, ← zpow_add₀ two_ne_zero]
  rfl

theorem absValue_eq_units (x : Binary64) : x.absValue = units x.magnitude * leastValue := by
  unfold absValue significand scale exponentField fraction units
  rw [Nat.pow_eq]
  generalize x.magnitude / 2 ^ 52 = e, x.magnitude % 2 ^ 52 = f
  cases e with
  | zero => simp [leastValue]
  | succ e =>
    have hscale : ((e + 1 : ℕ) : ℤ) - 1075 = (e : ℤ) - 1074 := by omega
    rw [if_neg (Nat.succ_ne_zero e), if_neg (Nat.succ_ne_zero e), hscale,
      ← two_pow_mul_leastValue, Nat.add_sub_cancel]
    push_cast
    ring

/-- The number with a significand `m` and a power of two `k` above the least one.  A
significand of `2 ^ 53` is that of the next power. -/
theorem units_eq {k m : ℕ} (hm : m ≤ 2 ^ 53) (hk : k = 0 ∨ 2 ^ 52 ≤ m) :
    units (k * 2 ^ 52 + m) = m * 2 ^ k := by
  unfold units
  by_cases hsmall : m < 2 ^ 52
  · have hzero : k = 0 := by omega
    subst hzero
    have hdiv : (0 * 2 ^ 52 + m) / 2 ^ 52 = 0 := by omega
    have hmod : (0 * 2 ^ 52 + m) % 2 ^ 52 = m := by omega
    rw [hdiv, hmod, if_pos rfl]
  · by_cases hcarry : m = 2 ^ 53
    · have hdiv : (k * 2 ^ 52 + m) / 2 ^ 52 = k + 2 := by omega
      have hmod : (k * 2 ^ 52 + m) % 2 ^ 52 = 0 := by omega
      have hpower : 2 ^ (k + 2 - 1) = 2 ^ k * 2 := Nat.pow_succ _ _
      rw [hdiv, hmod, hcarry, hpower, if_neg (by omega)]
      omega
    · have hdiv : (k * 2 ^ 52 + m) / 2 ^ 52 = k + 1 := by omega
      have hmod : (k * 2 ^ 52 + m) % 2 ^ 52 = m - 2 ^ 52 := by omega
      rw [hdiv, hmod, if_neg (by omega), Nat.add_sub_cancel, Nat.add_sub_cancel' (by omega)]

/-- Every magnitude has a significand and a power of two. -/
theorem exists_units_eq (k : ℕ) : ∃ s p, s < 2 ^ 53 ∧ units k = s * 2 ^ p := by
  refine ⟨_, k / 2 ^ 52 - 1, ?_, rfl⟩
  split <;> omega

/-- The magnitudes are ordered as the values are. -/
theorem strictMono_units : StrictMono units := by
  apply strictMono_nat_of_lt_succ
  intro n
  -- the next magnitude has the next significand, or else the least one of the next power
  by_cases hzero : n / 2 ^ 52 = 0
  · have hn : units n = n := by
      have := units_eq (m := n) (k := 0) (by omega) (.inl rfl)
      simpa using this
    have hnext : units (n + 1) = n + 1 := by
      have := units_eq (m := n + 1) (k := 0) (by omega) (.inl rfl)
      simpa using this
    omega
  · obtain ⟨e, he⟩ := Nat.exists_eq_succ_of_ne_zero hzero
    have hsplit : n = e * 2 ^ 52 + (2 ^ 52 + n % 2 ^ 52) := by omega
    have hn := units_eq (m := 2 ^ 52 + n % 2 ^ 52) (k := e) (by omega) (.inr (by omega))
    have hnext := units_eq (m := 2 ^ 52 + n % 2 ^ 52 + 1) (k := e) (by omega) (.inr (by omega))
    rw [← hsplit] at hn
    rw [← Nat.add_assoc, ← hsplit] at hnext
    rw [hn, hnext]
    exact Nat.mul_lt_mul_of_pos_right (Nat.lt_succ_self _) (Nat.two_pow_pos e)

theorem absValue_lt_absValue {x y : Binary64} (h : x.magnitude < y.magnitude) :
    x.absValue < y.absValue := by
  rw [absValue_eq_units, absValue_eq_units]
  apply mul_lt_mul_of_pos_right _ leastValue_pos
  exact_mod_cast strictMono_units h

/-- A significand is even where the magnitude is. -/
theorem even_significand_iff (x : Binary64) : Even x.significand ↔ Even x.magnitude := by
  unfold significand exponentField fraction
  rw [Nat.pow_eq, Nat.even_iff, Nat.even_iff]
  split <;> omega

/-! ### Nearest integers -/

/-- The integer `m` is nearest to `t`, and even where `t` is halfway between two integers. -/
structure NearestEven (t : ℚ) (m : ℕ) : Prop where
  /-- No integer is nearer. -/
  close : |t - m| ≤ 1 / 2
  /-- Of two integers that are as near it is the even one. -/
  even_of_half : |t - m| = 1 / 2 → Even m

/-- A quotient is its whole part and what the remainder adds to it. -/
theorem cast_div_eq_add (n : ℕ) {d : ℕ} (hd : 0 < d) :
    (n : ℚ) / d = (n / d : ℕ) + (n % d : ℕ) / (d : ℚ) := by
  have hpos : (0 : ℚ) < d := by exact_mod_cast hd
  have hn : (n : ℚ) = d * (n / d : ℕ) + (n % d : ℕ) := by
    exact_mod_cast (Nat.div_add_mod n d).symm
  rw [eq_comm, eq_div_iff hpos.ne', add_mul, div_mul_cancel₀ _ hpos.ne', mul_comm, ← hn]

theorem nearestEven_roundDiv (n : ℕ) {d : ℕ} (hd : 0 < d) :
    NearestEven ((n : ℚ) / d) (roundDiv n d) := by
  have hpos : (0 : ℚ) < d := by exact_mod_cast hd
  have hlt : ((n % d : ℕ) : ℚ) < d := by exact_mod_cast Nat.mod_lt n hd
  have hsplit := cast_div_eq_add n hd
  set q := n / d
  set r := n % d
  have hfrac : (0 : ℚ) ≤ r / d := by positivity
  have hfrac' : (r : ℚ) / d ≤ 1 := (div_le_one hpos).mpr hlt.le
  -- rounded up, the distance is what the remainder lacks, and otherwise it is the remainder
  by_cases hup : 2 * r > d ∨ (2 * r = d ∧ q % 2 = 1)
  · have hround : roundDiv n d = q + 1 := if_pos hup
    have hdist : |(n : ℚ) / d - (q + 1 : ℕ)| = 1 - r / d := by
      rw [hsplit, abs_sub_comm, abs_of_nonneg] <;> push_cast <;> linarith
    have hhalf : (d : ℚ) ≤ 2 * r := by exact_mod_cast (show d ≤ 2 * r by omega)
    rw [hround]
    constructor
    · rw [hdist]
      have : (1 : ℚ) / 2 ≤ r / d := by rw [div_le_div_iff₀ two_pos hpos]; linarith
      linarith
    · intro heq
      rw [hdist] at heq
      have hr : (r : ℚ) / d = 1 / 2 := by linarith
      rw [div_eq_div_iff hpos.ne' two_ne_zero] at hr
      have hr : r * 2 = 1 * d := by exact_mod_cast hr
      rw [Nat.even_iff]
      omega
  · have hround : roundDiv n d = q := if_neg hup
    have hdist : |(n : ℚ) / d - q| = r / d := by
      rw [hsplit, add_sub_cancel_left, abs_of_nonneg hfrac]
    have hhalf : 2 * (r : ℚ) ≤ d := by exact_mod_cast (show 2 * r ≤ d by omega)
    rw [hround]
    constructor
    · rw [hdist, div_le_div_iff₀ hpos two_pos]
      linarith
    · intro heq
      rw [hdist, div_eq_div_iff hpos.ne' two_ne_zero] at heq
      have heq : r * 2 = 1 * d := by exact_mod_cast heq
      rw [Nat.even_iff]
      omega

namespace NearestEven

variable {t : ℚ} {m : ℕ}

/-- Every other integer is at least as far as the middle between two integers. -/
theorem half_le (h : NearestEven t m) {j : ℕ} (hj : j ≠ m) : 1 / 2 ≤ |t - j| := by
  have hone : (1 : ℚ) ≤ |(m : ℚ) - j| := by
    have hne : (m : ℤ) - j ≠ 0 := by omega
    exact_mod_cast Int.one_le_abs hne
  have htriangle : |(m : ℚ) - j| ≤ |(m : ℚ) - t| + |t - j| := abs_sub_le _ _ _
  rw [abs_sub_comm (m : ℚ) t] at htriangle
  linarith [h.close]

theorem le_abs_sub (h : NearestEven t m) (j : ℕ) : |t - m| ≤ |t - j| := by
  by_cases hj : j = m
  · rw [hj]
  · exact h.close.trans (h.half_le hj)

theorem eq_or_even (h : NearestEven t m) {j : ℕ} (htie : |t - m| = |t - j|) :
    j = m ∨ Even m := by
  by_cases hj : j = m
  · exact .inl hj
  · exact .inr (h.even_of_half (le_antisymm h.close (htie ▸ h.half_le hj)))

theorem le_of_le (h : NearestEven t m) {j : ℕ} (hj : (j : ℚ) ≤ t) : j ≤ m := by
  by_contra hlt
  have hm : (m : ℚ) + 1 ≤ j := by exact_mod_cast not_le.mp hlt
  have := (abs_le.mp h.close).2
  linarith

theorem le_of_lt (h : NearestEven t m) {j : ℕ} (hj : t < j) : m ≤ j := by
  by_contra hlt
  have hm : (j : ℚ) + 1 ≤ m := by exact_mod_cast not_le.mp hlt
  have := (abs_le.mp h.close).1
  linarith

end NearestEven

/-! ### Nearest values -/

/-- Of all values, counted in units, the one with magnitude `k` is nearest to `t`, and its
magnitude is even where another one is as near. -/
structure NearestUnits (t : ℚ) (k : ℕ) : Prop where
  /-- No value is nearer. -/
  nearest : ∀ j, |t - units k| ≤ |t - units j|
  /-- Of two values that are as near it is the one with an even magnitude. -/
  even_of_tie : ∀ j, |t - units k| = |t - units j| → j = k ∨ Even k

/-- In multiples of a power of two, a value is an integer, or else it lies below all values
with that power. -/
theorem exists_units_eq_mul (k j : ℕ) :
    ∃ u : ℚ, units j = u * 2 ^ k ∧ ((∃ i : ℕ, u = i) ∨ (0 < k ∧ u < 2 ^ 52)) := by
  obtain ⟨s, p, hs, hj⟩ := exists_units_eq j
  by_cases hle : k ≤ p
  · refine ⟨(s * 2 ^ (p - k) : ℕ), ?_, .inl ⟨_, rfl⟩⟩
    rw [hj, ← Nat.sub_add_cancel hle, Nat.add_sub_cancel, Nat.pow_add]
    push_cast
    ring
  · obtain ⟨i, rfl⟩ := Nat.exists_eq_add_of_lt (not_le.mp hle)
    refine ⟨s / 2 ^ (i + 1), ?_, .inr ⟨by omega, ?_⟩⟩
    · rw [hj, Nat.add_assoc, pow_add 2 p, ← mul_assoc, mul_right_comm,
        div_mul_cancel₀ _ (by positivity)]
      push_cast
      rfl
    · have hpow : (2 : ℚ) ≤ 2 ^ (i + 1) := by
        calc (2 : ℚ) = 2 ^ 1 := (pow_one 2).symm
          _ ≤ 2 ^ (i + 1) := pow_le_pow_right₀ one_le_two (by omega)
      have hs : (s : ℚ) < 2 ^ 53 := by exact_mod_cast hs
      rw [div_lt_iff₀ (by positivity)]
      linarith

/-- A nearest significand gives a nearest value. -/
theorem NearestEven.nearestUnits {t : ℚ} {k m : ℕ} (h : NearestEven t m) (ht : t < 2 ^ 53)
    (hk : k = 0 ∨ 2 ^ 52 ≤ t) : NearestUnits (t * 2 ^ k) (k * 2 ^ 52 + m) := by
  have hpos : (0 : ℚ) < 2 ^ k := by positivity
  have hscale : ∀ u : ℚ, |t * 2 ^ k - u * 2 ^ k| = |t - u| * 2 ^ k := by
    intro u
    rw [← sub_mul, abs_mul, abs_of_pos hpos]
  have hunits : units (k * 2 ^ 52 + m) = m * 2 ^ k := by
    apply units_eq (h.le_of_lt (by exact_mod_cast ht))
    exact hk.imp_right fun hle => h.le_of_le (by exact_mod_cast hle)
  have hself : |t * 2 ^ k - units (k * 2 ^ 52 + m)| = |t - m| * 2 ^ k := by
    rw [hunits, Nat.cast_mul, Nat.cast_pow, Nat.cast_ofNat, hscale]
  -- a value below all those with this power is farther than the least of them
  have hfar : ∀ u : ℚ, 0 < k → u < 2 ^ 52 → |t - m| < |t - u| := by
    intro u hpower hu
    have hle : (2 ^ 52 : ℕ) ≤ t := by exact_mod_cast hk.resolve_left (by omega)
    have hnear := h.le_abs_sub (2 ^ 52)
    rw [abs_of_nonneg (sub_nonneg.mpr hle)] at hnear
    have hu : u < (2 ^ 52 : ℕ) := by exact_mod_cast hu
    have hle_abs := le_abs_self (t - u)
    linarith
  constructor
  · intro j
    obtain ⟨u, hj, hu⟩ := exists_units_eq_mul k j
    rw [hself, hj, hscale]
    apply mul_le_mul_of_nonneg_right _ hpos.le
    obtain ⟨i, rfl⟩ | ⟨hpower, hu⟩ := hu
    · exact h.le_abs_sub i
    · exact (hfar u hpower hu).le
  · intro j htie
    obtain ⟨u, hj, hu⟩ := exists_units_eq_mul k j
    rw [hself, hj, hscale] at htie
    have htie := mul_right_cancel₀ hpos.ne' htie
    obtain ⟨i, rfl⟩ | ⟨hpower, hu⟩ := hu
    · obtain rfl | hm := h.eq_or_even htie
      · refine .inl (strictMono_units.injective ?_)
        rw [hunits]
        exact_mod_cast hj
      · refine .inr ?_
        rw [Nat.even_iff] at hm ⊢
        omega
    · exact absurd htie (hfar u hpower hu).ne

namespace NearestUnits

variable {t : ℚ} {k : ℕ}

/-- The magnitude reaches an even number from halfway between it and its predecessor on. -/
theorem lt_iff (h : NearestUnits t k) {l : ℕ} (hl : Even (l + 1)) :
    l < k ↔ ((units l : ℚ) + units (l + 1)) / 2 ≤ t := by
  have hstep : (units l : ℚ) < units (l + 1) := by
    exact_mod_cast strictMono_units (Nat.lt_succ_self l)
  constructor
  · intro hlt
    -- the magnitude `l` is not nearer than `k`
    have hle : (units (l + 1) : ℚ) ≤ units k := by exact_mod_cast strictMono_units.monotone hlt
    have hnear := h.nearest l
    by_contra hbelow
    rw [not_le] at hbelow
    rw [abs_sub_comm, abs_of_nonneg (show (0 : ℚ) ≤ units k - t by linarith)] at hnear
    obtain habs | habs := abs_cases (t - units l) <;> linarith
  · intro hle
    by_contra hge
    rw [not_lt] at hge
    have hunits : (units k : ℚ) ≤ units l := by exact_mod_cast strictMono_units.monotone hge
    have hnear := h.nearest (l + 1)
    have hself : |t - units k| = t - units k := abs_of_nonneg (by linarith)
    have hother : |t - units (l + 1)| ≤ t - units l := by
      apply abs_le.mpr
      constructor <;> linarith
    have htie : |t - units k| = |t - units (l + 1)| := by linarith
    have hl' : units k = units l := by
      have : (units k : ℚ) = units l := by linarith
      exact_mod_cast this
    obtain heq | heven := h.even_of_tie (l + 1) htie
    · omega
    · rw [strictMono_units.injective hl', Nat.even_iff] at heven
      rw [Nat.even_iff] at hl
      omega

/-- Below half a unit the value is zero. -/
theorem of_lt_half (hnonneg : 0 ≤ t) (hlt : t < 1 / 2) : NearestUnits t 0 := by
  have hzero : units 0 = 0 := rfl
  have hfar : ∀ j, j ≠ 0 → |t - units 0| < |t - units j| := by
    intro j hj
    have hone : 1 ≤ units j := Nat.one_le_iff_ne_zero.mpr fun h =>
      hj (strictMono_units.injective (h.trans hzero.symm))
    have hone : (1 : ℚ) ≤ units j := by exact_mod_cast hone
    rw [hzero, Nat.cast_zero, sub_zero, abs_of_nonneg hnonneg, abs_sub_comm]
    have hle_abs := le_abs_self (units j - t)
    linarith
  constructor
  · intro j
    by_cases hj : j = 0
    · rw [hj]
    · exact (hfar j hj).le
  · intro j _
    exact .inr Even.zero

end NearestUnits

/-! ### Rounding -/

/-- The number that a ratio without a sign is rounded to: infinity from halfway between the
greatest finite value and `2 ^ 1024` on, otherwise a finite number nearest to the ratio, and
the one with an even significand where two of them are. -/
structure Rounds (r : ℚ) (x : Binary64) : Prop where
  /-- It has no sign. -/
  isNegative_eq : x.isNegative = false
  /-- It is a number or infinity. -/
  isNaN_eq : x.isNaN = false
  /-- It is infinity where `2 ^ 1024` would be as near as the greatest finite value. -/
  isInfinite_iff : x.isInfinite = true ↔ 2 ^ 1024 - 2 ^ 970 ≤ r
  /-- No finite number is nearer. -/
  nearest : x.isInfinite = false →
    ∀ y : Binary64, y.magnitude < infiniteMagnitude → |r - x.absValue| ≤ |r - y.absValue|
  /-- Of two finite numbers that are as near it is the one with an even significand. -/
  even_of_tie : x.isInfinite = false →
    ∀ y : Binary64, y.magnitude < infiniteMagnitude → |r - x.absValue| = |r - y.absValue| →
      y.absValue = x.absValue ∨ Even x.significand

/-- The middle between the greatest value with a power of two and the least with the next. -/
theorem units_middle (k : ℕ) :
    ((units (k * 2 ^ 52 + (2 ^ 53 - 1)) : ℚ) + units (k * 2 ^ 52 + 2 ^ 53)) / 2 =
      (2 ^ 54 - 1) / 2 * 2 ^ k := by
  rw [units_eq (by omega) (.inr (by omega)), units_eq (by omega) (.inr (by omega))]
  push_cast
  ring

/-- The ratio halfway between the greatest finite value and the next one. -/
theorem units_infiniteMagnitude :
    ((units (infiniteMagnitude - 1) : ℚ) + units (infiniteMagnitude - 1 + 1)) / 2 * leastValue =
      2 ^ 1024 - 2 ^ 970 := by
  have hpower : ((2045 : ℕ) : ℤ) - 1074 = ((970 + 1 : ℕ) : ℤ) := by norm_num
  have hsplit : (2 : ℚ) ^ 1024 = 2 ^ 970 * 2 ^ 54 := by rw [← pow_add]
  rw [show infiniteMagnitude - 1 = 2045 * 2 ^ 52 + (2 ^ 53 - 1) by decide,
    show 2045 * 2 ^ 52 + (2 ^ 53 - 1) + 1 = 2045 * 2 ^ 52 + 2 ^ 53 by decide,
    units_middle, mul_assoc, two_pow_mul_leastValue, hpower, zpow_natCast, pow_succ _ 970, hsplit]
  generalize (2 : ℚ) ^ 970 = a
  ring

theorem Rounds.of_nearestUnits {r t : ℚ} {k : ℕ} (h : NearestUnits t k)
    (ht : t * leastValue = r) : Rounds r ⟨UInt64.ofNat (min k infiniteMagnitude)⟩ := by
  have hle := Nat.min_le_right k infiniteMagnitude
  have hmagnitude := magnitude_ofNat hle
  have hnegative := isNegative_ofNat hle
  generalize Binary64.mk (UInt64.ofNat (min k infiniteMagnitude)) = x at hmagnitude hnegative ⊢
  have hdist : ∀ y : Binary64, |r - y.absValue| = |t - units y.magnitude| * leastValue := by
    intro y
    rw [absValue_eq_units, ← ht, ← sub_mul, abs_mul, abs_of_pos leastValue_pos]
  have hinfinite : x.isInfinite = true ↔ infiniteMagnitude - 1 < k := by
    have hpos : 0 < infiniteMagnitude := by decide
    rw [isInfinite, hmagnitude, beq_iff_eq]
    omega
  have hfinite : x.isInfinite = false → x.magnitude = k := by
    intro hx
    rw [← Bool.not_eq_true, hinfinite] at hx
    omega
  refine ⟨hnegative, ?_, ?_, ?_, ?_⟩
  · rw [isNaN, hmagnitude, decide_eq_false_iff_not, not_lt]
    exact hle
  · rw [hinfinite, h.lt_iff (by decide), ← mul_le_mul_iff_of_pos_right leastValue_pos,
      units_infiniteMagnitude, ht]
  · intro hx y _
    rw [hdist, hdist, hfinite hx]
    exact mul_le_mul_of_nonneg_right (h.nearest _) leastValue_pos.le
  · intro hx y _ htie
    rw [hdist, hdist, hfinite hx] at htie
    obtain heq | heven := h.even_of_tie _ (mul_right_cancel₀ leastValue_pos.ne' htie)
    · left
      rw [absValue_eq_units, absValue_eq_units, heq, hfinite hx]
    · right
      rwa [even_significand_iff, hfinite hx]

theorem Rounds.magnitude_lt {r : ℚ} {x : Binary64} (h : Rounds r x) (hx : x.isInfinite = false) :
    x.magnitude < infiniteMagnitude := by
  have hnan := h.isNaN_eq
  simp only [isNaN, isInfinite, decide_eq_false_iff_not, beq_eq_false_iff_ne] at hnan hx
  omega

/-- Between two values that are as near as each other every value is nearer. -/
theorem abs_sub_lt_of_between {r x y z : ℚ} (hxz : x < z) (hzy : z < y)
    (htie : |r - x| = |r - y|) : |r - z| < |r - x| := by
  have hmiddle : r = (x + y) / 2 := by
    obtain heq | heq := abs_eq_abs.mp htie
    · linarith
    · linarith
  rw [hmiddle, abs_of_nonneg (show 0 ≤ (x + y) / 2 - x by linarith), abs_lt]
  constructor <;> linarith

/-- A ratio is rounded to one number at most.  Of two neighbours only one has an even
significand, and between two others there is a third number, which is nearer. -/
theorem Rounds.unique {r : ℚ} {x y : Binary64} (hx : Rounds r x) (hy : Rounds r y) : x = y := by
  wlog hle : x.magnitude ≤ y.magnitude generalizing x y
  · exact (this hy hx (Nat.le_of_not_le hle)).symm
  apply eq_of_magnitude hx.isNegative_eq hy.isNegative_eq
  have hsame : y.isInfinite = x.isInfinite := by
    rw [Bool.eq_iff_iff, hx.isInfinite_iff, hy.isInfinite_iff]
  cases hinfinite : x.isInfinite with
  | true =>
    have hinfinite' := hsame.trans hinfinite
    simp only [isInfinite, beq_iff_eq] at hinfinite hinfinite'
    omega
  | false =>
    have hinfinite' := hsame.trans hinfinite
    have hxfinite := hx.magnitude_lt hinfinite
    have hyfinite := hy.magnitude_lt hinfinite'
    have htie := le_antisymm (hx.nearest hinfinite y hyfinite) (hy.nearest hinfinite' x hxfinite)
    by_contra hne
    have hxy := absValue_lt_absValue (Nat.lt_of_le_of_ne hle hne)
    have hxeven := (hx.even_of_tie hinfinite y hyfinite htie).resolve_left hxy.ne'
    have hyeven := (hy.even_of_tie hinfinite' x hxfinite htie.symm).resolve_left hxy.ne
    rw [even_significand_iff, Nat.even_iff] at hxeven hyeven
    -- the next magnitude after that of `x` is odd, so it comes before that of `y`
    have hz := magnitude_ofNat (k := x.magnitude + 1) (by omega)
    generalize Binary64.mk (UInt64.ofNat (x.magnitude + 1)) = z at hz
    have hxz : x.absValue < z.absValue := absValue_lt_absValue (by omega)
    have hzy : z.absValue < y.absValue := absValue_lt_absValue (by omega)
    have hnear := hx.nearest hinfinite z (by omega)
    exact absurd (abs_sub_lt_of_between hxz hzy htie) (not_lt.mpr hnear)

/-! ### Ratios and decimal digits -/

/-- A power is a ratio of two powers that are not negative. -/
theorem zpow_eq_div {a : ℚ} (ha : a ≠ 0) (e : ℤ) : a ^ e = a ^ e.toNat / a ^ (-e).toNat := by
  rw [← zpow_natCast, ← zpow_natCast, ← zpow_sub₀ ha, Int.toNat_sub_toNat_neg]

/-- The exponent of the greatest power of two that a ratio reaches. -/
theorem floorLog2_spec {n d : ℕ} (hn : 0 < n) (hd : 0 < d) :
    (2 : ℚ) ^ floorLog2 n d ≤ n / d ∧ (n : ℚ) / d < 2 ^ (floorLog2 n d + 1) := by
  have hpos : (0 : ℚ) < d := by exact_mod_cast hd
  have hnlow : (2 : ℚ) ^ n.log2 ≤ n := by exact_mod_cast Nat.log2_self_le hn.ne'
  have hnhigh : (n : ℚ) < 2 ^ (n.log2 + 1) := by exact_mod_cast Nat.lt_log2_self
  have hdlow : (2 : ℚ) ^ d.log2 ≤ d := by exact_mod_cast Nat.log2_self_le hd.ne'
  have hdhigh : (d : ℚ) < 2 ^ (d.log2 + 1) := by exact_mod_cast Nat.lt_log2_self
  have htest : ∀ e : ℤ, d * Nat.pow 2 e.toNat ≤ n * Nat.pow 2 (-e).toNat ↔ (2 : ℚ) ^ e ≤ n / d := by
    intro e
    rw [zpow_eq_div two_ne_zero, div_le_div_iff₀ (by positivity) hpos, Nat.pow_eq, Nat.pow_eq,
      mul_comm, ← @Nat.cast_le ℚ]
    push_cast
    rfl
  have hlow : (2 : ℚ) ^ ((n.log2 : ℤ) - d.log2 - 1) ≤ n / d := by
    rw [show (n.log2 : ℤ) - d.log2 - 1 = n.log2 - (d.log2 + 1 : ℕ) by omega,
      zpow_sub₀ two_ne_zero, zpow_natCast, zpow_natCast]
    exact div_le_div₀ (by positivity) hnlow hpos hdhigh.le
  have hhigh : (n : ℚ) / d < 2 ^ ((n.log2 : ℤ) - d.log2 + 1) := by
    rw [show (n.log2 : ℤ) - d.log2 + 1 = (n.log2 + 1 : ℕ) - d.log2 by omega,
      zpow_sub₀ two_ne_zero, zpow_natCast, zpow_natCast]
    exact div_lt_div₀ hnhigh hdlow (by positivity) (by positivity)
  unfold floorLog2
  simp only [htest]
  by_cases hle : (2 : ℚ) ^ ((n.log2 : ℤ) - d.log2) ≤ n / d
  · rw [if_pos hle]
    exact ⟨hle, hhigh⟩
  · rw [if_neg hle, sub_add_cancel]
    exact ⟨hlow, not_le.mp hle⟩

theorem rounds_zero {r : ℚ} (hnonneg : 0 ≤ r) (hlt : r < leastValue / 2) : Rounds r ⟨0⟩ := by
  have hhalf : r / leastValue < 1 / 2 := by
    rw [div_lt_iff₀ leastValue_pos]
    linarith
  have hnear := NearestUnits.of_lt_half (div_nonneg hnonneg leastValue_pos.le) hhalf
  exact Rounds.of_nearestUnits hnear (div_mul_cancel₀ r leastValue_pos.ne')

theorem rounds_infinity {r : ℚ} (h : 2 ^ 1024 - 2 ^ 970 ≤ r) : Rounds r infinity where
  isNegative_eq := by decide
  isNaN_eq := by decide
  isInfinite_iff := iff_of_true (by decide) h
  nearest := nofun
  even_of_tie := nofun

/-- The number computed from a ratio is the one that the ratio is rounded to. -/
theorem rounds_ofRatio (n : ℕ) {d : ℕ} (hd : 0 < d) : Rounds ((n : ℚ) / d) (ofRatio n d) := by
  unfold ofRatio
  by_cases hn : n = 0
  · rw [if_pos hn, hn, Nat.cast_zero, zero_div]
    exact rounds_zero le_rfl (half_pos leastValue_pos)
  · rw [if_neg hn]
    obtain ⟨hlow, hhigh⟩ := floorLog2_spec (Nat.pos_of_ne_zero hn) hd
    simp only
    generalize floorLog2 n d = e at hlow hhigh ⊢
    set q := max (e - 52) (-1074)
    have hpos : (0 : ℚ) < 2 ^ q := by positivity
    -- the quotient that is rounded is the ratio in multiples of `2 ^ q`
    have hquotient : ((n * Nat.pow 2 (-q).toNat : ℕ) : ℚ) / (d * Nat.pow 2 q.toNat : ℕ) =
        n / d / 2 ^ q := by
      rw [zpow_eq_div two_ne_zero, Nat.pow_eq, Nat.pow_eq]
      push_cast
      rw [div_div_div_eq]
    have hnear := nearestEven_roundDiv (n * Nat.pow 2 (-q).toNat) (d := d * Nat.pow 2 q.toNat)
      (Nat.mul_pos hd (Nat.two_pow_pos _))
    rw [hquotient] at hnear
    have hlt : (n : ℚ) / d / 2 ^ q < 2 ^ 53 := by
      rw [div_lt_iff₀ hpos, ← zpow_natCast, ← zpow_add₀ two_ne_zero]
      apply hhigh.trans_le (zpow_le_zpow_right₀ one_le_two _)
      push_cast
      omega
    have hleading : (q + 1074).toNat = 0 ∨ 2 ^ 52 ≤ (n : ℚ) / d / 2 ^ q := by
      by_cases hq : (q + 1074).toNat = 0
      · exact .inl hq
      · right
        rw [le_div_iff₀ hpos, ← zpow_natCast, ← zpow_add₀ two_ne_zero]
        apply (zpow_le_zpow_right₀ one_le_two _).trans hlow
        push_cast
        omega
    apply Rounds.of_nearestUnits (hnear.nearestUnits hlt hleading)
    have hpower : (((q + 1074).toNat : ℕ) : ℤ) - 1074 = q := by omega
    rw [mul_assoc, two_pow_mul_leastValue, hpower, div_mul_cancel₀ _ hpos.ne']

/-- The digits of a number say between which powers of ten it lies. -/
theorem ten_zpow_le_of_length {n : ℕ} (hn : n ≠ 0) :
    (10 : ℚ) ^ (((Nat.toDigits 10 n).length : ℤ) - 1) ≤ n ∧
      (n : ℚ) < 10 ^ ((Nat.toDigits 10 n).length : ℤ) := by
  obtain ⟨l, hl⟩ := Nat.exists_eq_succ_of_ne_zero (Nat.length_toDigits_pos (b := 10) (n := n)).ne'
  rw [hl, Nat.succ_eq_add_one, Nat.cast_succ, add_sub_cancel_right, ← Nat.cast_succ, zpow_natCast,
    zpow_natCast]
  constructor
  · rw [← not_lt]
    intro hlt
    have hlt : n < 10 ^ l := by exact_mod_cast hlt
    by_cases hzero : l = 0
    · rw [hzero] at hlt
      omega
    · have := (Nat.length_toDigits_le_iff (by omega) (by omega)).mpr hlt
      omega
  · have hlt : n < 10 ^ (l + 1) := (Nat.length_toDigits_le_iff (by omega) (by omega)).mp (by omega)
    exact_mod_cast hlt

theorem two_pow_le_ten_pow : (2 : ℚ) ^ 1024 ≤ 10 ^ 310 := by
  calc (2 : ℚ) ^ 1024 ≤ 2 ^ (205 * 5) := pow_le_pow_right₀ one_le_two (by omega)
    _ = (2 ^ 205) ^ 5 := pow_mul _ _ _
    _ ≤ (10 ^ 62) ^ 5 := pow_le_pow_left₀ (by positivity) (by norm_num) 5
    _ = 10 ^ 310 := by rw [← pow_mul]

theorem ten_zpow_le_leastValue : (10 : ℚ) ^ (-331 : ℤ) ≤ leastValue / 2 := by
  have hpow : (2 : ℚ) ^ 1075 ≤ 10 ^ 331 := by
    calc (2 : ℚ) ^ 1075 = (2 ^ 215) ^ 5 := by rw [← pow_mul]
      _ ≤ (10 ^ 66) ^ 5 := pow_le_pow_left₀ (by positivity) (by norm_num) 5
      _ = 10 ^ 330 := by rw [← pow_mul]
      _ ≤ 10 ^ 331 := pow_le_pow_right₀ (by norm_num) (by omega)
  have hleast : leastValue / 2 = (2 ^ 1075)⁻¹ := by
    rw [leastValue, zpow_neg, zpow_ofNat, pow_succ _ 1074, mul_inv, div_eq_mul_inv]
  rw [hleast, zpow_neg, zpow_ofNat]
  exact inv_anti₀ (by positivity) hpow

/-- The number computed from decimal digits is the one that they are rounded to. -/
theorem rounds_ofDecimal (digits : ℕ) (exponent : ℤ) :
    Rounds (digits * 10 ^ exponent) (ofDecimal digits exponent) := by
  have hten : (10 : ℚ) ≠ 0 := by norm_num
  have hpos : (0 : ℚ) < 10 ^ exponent := zpow_pos (by norm_num) _
  unfold ofDecimal
  simp only
  by_cases hdigits : digits = 0
  · rw [if_pos hdigits, hdigits, Nat.cast_zero, zero_mul]
    exact rounds_zero le_rfl (half_pos leastValue_pos)
  · rw [if_neg hdigits]
    obtain ⟨hlow, hhigh⟩ := ten_zpow_le_of_length hdigits
    generalize ((Nat.toDigits 10 digits).length : ℤ) = l at hlow hhigh ⊢
    by_cases hlarge : 310 < exponent + l
    · -- the leading digit alone is beyond the greatest finite value
      rw [if_pos hlarge]
      apply rounds_infinity
      calc (2 : ℚ) ^ 1024 - 2 ^ 970 ≤ 2 ^ 1024 := sub_le_self _ (by positivity)
        _ ≤ 10 ^ ((310 : ℕ) : ℤ) := two_pow_le_ten_pow.trans_eq (zpow_natCast _ _).symm
        _ ≤ 10 ^ (l - 1 + exponent) := zpow_le_zpow_right₀ (by norm_num) (by omega)
        _ = 10 ^ (l - 1) * 10 ^ exponent := zpow_add₀ hten _ _
        _ ≤ digits * 10 ^ exponent := mul_le_mul_of_nonneg_right hlow hpos.le
    · rw [if_neg hlarge]
      by_cases hsmall : exponent + l < -330
      · -- the leading digit stands so far behind the point that all of it is lost
        rw [if_pos hsmall]
        apply rounds_zero (mul_nonneg (Nat.cast_nonneg _) hpos.le)
        calc (digits : ℚ) * 10 ^ exponent < 10 ^ l * 10 ^ exponent :=
              mul_lt_mul_of_pos_right hhigh hpos
          _ = 10 ^ (l + exponent) := (zpow_add₀ hten _ _).symm
          _ ≤ 10 ^ (-331 : ℤ) := zpow_le_zpow_right₀ (by norm_num) (by omega)
          _ ≤ leastValue / 2 := ten_zpow_le_leastValue
      · rw [if_neg hsmall]
        have hratio := rounds_ofRatio (digits * Nat.pow 10 exponent.toNat)
          (d := Nat.pow 10 (-exponent).toNat) (Nat.pow_pos (by omega))
        rw [zpow_eq_div hten, ← mul_div_assoc]
        simpa only [Nat.pow_eq, Nat.cast_mul, Nat.cast_pow, Nat.cast_ofNat] using hratio

end Binary64
end CurlyScript
