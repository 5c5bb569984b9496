/-!
# Numbers of a machine

A machine has no numbers beyond its words.  What it computes is checked: a result that does not fit
is none, or stops the machine.

## Main definitions

* `Machine.checked` — a whole number, if it fits into a signed word of 64 bits.
* `Machine.checkedPow` — a power, one factor after the other.
* `Halt` — why a machine stops.
* `Machine.sum`, `Machine.difference`, `Machine.front`, `Machine.copies` — steps that may stop it.

## Main results

* `Machine.checkedPowFrom_eq` — a power fits if all its factors together do.
-/

namespace CurlyScript
namespace Machine

/-! ### Signed words -/

/-- The greatest signed number of 64 bits. -/
def greatest : Int := 9223372036854775807

/-- The least signed number of 64 bits. -/
def least : Int := -9223372036854775808

/-- A whole number, if it is a signed number of 64 bits. -/
def checked (n : Int) : Option Int := if least ≤ n ∧ n ≤ greatest then some n else none

/-- A sum, if it fits. -/
def checkedAdd (a b : Int) : Option Int := checked (a + b)

/-- A product, if it fits. -/
def checkedMul (a b : Int) : Option Int := checked (a * b)

/-- Multiplies by a base so many times, as long as the products fit. -/
def checkedPowFrom (base : Int) (product : Int) : Nat → Option Int
  | 0 => some product
  | count + 1 =>
    match checkedMul product base with
    | none => none
    | some product => checkedPowFrom base product count

/-- A power, if it fits. -/
def checkedPow (base : Int) (exponent : Nat) : Option Int := checkedPowFrom base 1 exponent

/-- The greatest unsigned number of 32 bits. -/
def greatestShort : Int := 4294967295

/-- A number as an unsigned number of 32 bits, if it is one. -/
def short? (n : Int) : Option Nat := if 0 ≤ n ∧ n ≤ greatestShort then some n.toNat else none

/-- A natural number fits if it is not too great. -/
theorem checked_natCast (n : Nat) :
    checked n = if (n : Int) ≤ greatest then some (n : Int) else none := by
  have hleast : least ≤ n := Int.le_trans (by decide : least ≤ 0) (Int.natCast_nonneg n)
  simp only [checked, hleast, true_and]

/-- A number that fits not even before it is multiplied or added to does not fit afterwards. -/
theorem checked_eq_none {m n : Nat} (h : m ≤ n) (hm : checked m = none) : checked n = none := by
  rw [checked_natCast] at hm ⊢
  split at hm
  · cases hm
  · next hlarge => exact if_neg fun hn => hlarge (Int.le_trans (Int.ofNat_le.mpr h) hn)

theorem checked_eq_some {n : Nat} {m : Int} (h : checked n = some m) : m = n := by
  rw [checked_natCast] at h
  split at h <;> cases h
  rfl

/-- Powers of a base that is not zero only grow, so a power fits if all its factors together do. -/
theorem checkedPowFrom_eq {base : Nat} (hbase : 0 < base) (product count : Nat)
    (h : checked product = some (product : Int)) :
    checkedPowFrom base product count = checked (product * Nat.pow base count : Nat) := by
  induction count generalizing product with
  | zero =>
    show some (product : Int) = checked (product * 1 : Nat)
    rw [Nat.mul_one, h]
  | succ count ih =>
    have hpow : product * Nat.pow base (count + 1) = product * base * Nat.pow base count := by
      show product * (Nat.pow base count * base) = _
      rw [Nat.mul_comm (Nat.pow base count), Nat.mul_assoc]
    rw [checkedPowFrom, hpow]
    cases hproduct : checkedMul (product : Int) base with
    | none =>
      have hnone : checked (product * base : Nat) = none := hproduct
      have hle : product * base ≤ product * base * Nat.pow base count :=
        Nat.le_mul_of_pos_right _ (Nat.pow_pos hbase)
      exact (checked_eq_none hle hnone).symm
    | some next =>
      have hsome : checked (product * base : Nat) = some next := hproduct
      cases checked_eq_some hsome
      exact ih (product * base) hsome

end Machine

/-! ### Steps that stop a machine -/

/-- Why a machine stops. -/
inductive Halt
  /-- A difference is below zero. -/
  | belowZero
  /-- A number is above the largest one. -/
  | tooLarge
  /-- There are not as many bytes. -/
  | pastEnd
  deriving DecidableEq

namespace Machine

/-- A sum, if it is at most the largest number. -/
def sum (largest a b : Nat) : Except Halt Nat :=
  if a + b ≤ largest then .ok (a + b) else .error .tooLarge

/-- A difference, if it is not below zero. -/
def difference (a b : Nat) : Except Halt Nat := if b ≤ a then .ok (a - b) else .error .belowZero

/-- The first bytes, if there are as many. -/
def front (n : Nat) (bytes : List UInt8) : Except Halt (List UInt8) :=
  if n ≤ bytes.length then .ok (bytes.take n) else .error .pastEnd

/-- A character several times, if the number is at most the largest one. -/
def copies (largest n : Nat) (c : Char) : Except Halt (List Char) :=
  if n ≤ largest then .ok (List.replicate n c) else .error .tooLarge

end Machine
end CurlyScript
