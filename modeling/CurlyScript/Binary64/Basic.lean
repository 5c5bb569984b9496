/-!
# Binary floating point values of 64 bits

A value of the binary64 interchange format, held as its bits.  All that the library does
with such a value (comparing it, reading it from decimal digits, writing it with the fewest
digits) is exact arithmetic on natural numbers, so the machine's floating point unit is
never asked.

## Main definitions

* `Binary64` — the 64 bits.
* `Binary64.significand`, `Binary64.scale` — a finite value is `significand * 2 ^ scale`, up
  to its sign.
* `Binary64.same` — equality of values: the two zeros are equal, a NaN equals nothing.

## Main results

* `Binary64.eq_of_magnitude` — a number without a sign is told by its magnitude.
-/

namespace CurlyScript

/-- A binary64 value, as its bits: a sign, eleven bits of exponent, 52 bits of fraction. -/
structure Binary64 where
  /-- The 64 bits, the sign first. -/
  bits : UInt64
  deriving DecidableEq

namespace Binary64

/-- Whether the sign bit is set. -/
def isNegative (x : Binary64) : Bool := Nat.pow 2 63 ≤ x.bits.toNat

/-- The bits without the sign. -/
def magnitude (x : Binary64) : Nat := x.bits.toNat % Nat.pow 2 63

/-- The eleven bits of the exponent. -/
def exponentField (x : Binary64) : Nat := x.magnitude / Nat.pow 2 52

/-- The 52 bits of the fraction. -/
def fraction (x : Binary64) : Nat := x.magnitude % Nat.pow 2 52

/-- The magnitude of the infinities, above that of every finite value. -/
def infiniteMagnitude : Nat := 2047 * Nat.pow 2 52

/-- Positive infinity. -/
def infinity : Binary64 := ⟨UInt64.ofNat infiniteMagnitude⟩

/-- Whether the value is one of the two infinities. -/
def isInfinite (x : Binary64) : Bool := x.magnitude == infiniteMagnitude

/-- Whether the bits stand for no number. -/
def isNaN (x : Binary64) : Bool := infiniteMagnitude < x.magnitude

/-- Whether the value is one of the two zeros. -/
def isZero (x : Binary64) : Bool := x.magnitude == 0

/-- The integer that a finite value is a power of two times.  Below the least normal value
the leading one of the fraction is missing. -/
def significand (x : Binary64) : Nat :=
  if x.exponentField = 0 then x.fraction else Nat.pow 2 52 + x.fraction

/-- The power of two that goes with `significand`. -/
def scale (x : Binary64) : Int :=
  if x.exponentField = 0 then -1074 else (x.exponentField : Int) - 1075

/-- Equality of the values two bit patterns stand for. -/
def same (x y : Binary64) : Bool :=
  !x.isNaN && !y.isNaN && (x == y || (x.isZero && y.isZero))

/-! ### Numbers without a sign -/

theorem bits_ofNat {k : Nat} (hk : k ≤ infiniteMagnitude) :
    (mk (UInt64.ofNat k)).bits.toNat = k := by
  have hbound : infiniteMagnitude < 2 ^ 63 := by decide
  rw [UInt64.toNat_ofNat']
  omega

theorem magnitude_ofNat {k : Nat} (hk : k ≤ infiniteMagnitude) :
    (mk (UInt64.ofNat k)).magnitude = k := by
  have hbound : infiniteMagnitude < 2 ^ 63 := by decide
  rw [magnitude, bits_ofNat hk, Nat.pow_eq]
  omega

theorem isNegative_ofNat {k : Nat} (hk : k ≤ infiniteMagnitude) :
    (mk (UInt64.ofNat k)).isNegative = false := by
  have hbound : infiniteMagnitude < 2 ^ 63 := by decide
  rw [isNegative, bits_ofNat hk, Nat.pow_eq, decide_eq_false_iff_not]
  omega

/-- A number without a sign is told by its magnitude. -/
theorem eq_of_magnitude {x y : Binary64} (hx : x.isNegative = false) (hy : y.isNegative = false)
    (h : x.magnitude = y.magnitude) : x = y := by
  obtain ⟨b⟩ := x
  obtain ⟨c⟩ := y
  simp only [isNegative, Nat.pow_eq, decide_eq_false_iff_not] at hx hy
  simp only [magnitude, Nat.pow_eq] at h
  congr 1
  apply UInt64.toNat_inj.mp
  omega

end Binary64
end CurlyScript
