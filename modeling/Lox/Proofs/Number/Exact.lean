import Mathlib.Algebra.Order.Field.Power
import Mathlib.Data.Rat.Cast.Order
import Mathlib.Tactic.Linarith
import Mathlib.Tactic.NormNum
import Mathlib.Tactic.Positivity
import Lox.Number.Binary

/-!
# Numbers and what they are equal to

A finite number is equal to a rational number; a number is taken for a natural one exactly if it is
equal to it (`toNat?_eq_some`).
-/

namespace Lox.Number

/-- What a finite number is equal to. -/
def Binary.value? : Binary → Option ℚ
  | .finite negative mantissa exponent =>
    some ((if negative then -1 else 1) * (mantissa * 2 ^ exponent))
  | _ => none

def value? (x : Float) : Option ℚ := (decode x).value?

/-- A quotient of natural numbers is one only if there is no remainder. -/
theorem natural?_eq_some {mantissa : Nat} {exponent : Int} {n : Nat} :
    Binary.natural? mantissa exponent = some n ↔ (mantissa * 2 ^ exponent : ℚ) = n := by
  unfold Binary.natural?
  by_cases whole : 0 ≤ exponent
  · obtain ⟨e, rfl⟩ := Int.eq_ofNat_of_zero_le whole
    rw [if_pos whole, Option.some_inj]
    simp only [Int.toNat_natCast, zpow_natCast, Nat.pow_eq]
    exact_mod_cast Iff.rfl
  · obtain ⟨e, rfl⟩ : ∃ e : Nat, exponent = -(e : Int) := ⟨(-exponent).toNat, by omega⟩
    have scale : (2 : ℚ) ^ e ≠ 0 := by positivity
    have quotient : (mantissa * 2 ^ (-(e : Int)) : ℚ) = n ↔ mantissa = n * 2 ^ e := by
      rw [zpow_neg, zpow_natCast, ← div_eq_mul_inv, div_eq_iff scale]
      exact_mod_cast Iff.rfl
    rw [if_neg whole, quotient]
    simp only [neg_neg, Int.toNat_natCast, Nat.pow_eq]
    constructor
    · intro found
      split at found
      · next even =>
        rw [← Option.some.inj found, Nat.div_mul_cancel (Nat.dvd_of_mod_eq_zero even)]
      · cases found
    · rintro rfl
      rw [Nat.mul_mod_left, if_pos rfl, Nat.mul_div_cancel _ (by positivity)]

theorem toInt?_eq_some {x : Float} {i : Int} : toInt? x = some i ↔ value? x = some (i : ℚ) := by
  unfold toInt? value? Binary.value? Binary.whole?
  cases decode x with
  | nan => simp
  | infinite negative => simp
  | finite negative mantissa exponent =>
    have whole := @natural?_eq_some mantissa exponent
    have magnitude : (0 : ℚ) ≤ mantissa * 2 ^ exponent := by positivity
    simp only [Option.map_map, Option.map_eq_some_iff, Function.comp_apply, Option.some_inj, whole]
    generalize (mantissa * 2 ^ exponent : ℚ) = q at magnitude
    cases negative with
    | false =>
      simp only [Bool.false_eq_true, ↓reduceIte, one_mul]
      constructor
      · rintro ⟨n, rfl, rfl⟩
        simp
      · rintro rfl
        obtain ⟨n, rfl⟩ := Int.eq_ofNat_of_zero_le (Int.cast_nonneg_iff.1 magnitude)
        exact ⟨n, by simp, rfl⟩
    | true =>
      simp only [↓reduceIte, neg_mul, one_mul]
      constructor
      · rintro ⟨n, rfl, rfl⟩
        simp
      · intro same
        have below : i ≤ 0 := by
          have : (i : ℚ) ≤ 0 := by linarith
          exact_mod_cast this
        obtain ⟨n, rfl⟩ : ∃ n : Nat, i = -(n : Int) := ⟨(-i).toNat, by omega⟩
        refine ⟨n, ?_, rfl⟩
        push_cast at same
        linarith

/-- The natural number is equal to the floating-point one. -/
theorem toNat?_eq_some {x : Float} {n : Nat} : toNat? x = some n ↔ value? x = some (n : ℚ) := by
  have whole := @toInt?_eq_some x n
  rw [Int.cast_natCast] at whole
  rw [← whole]
  unfold toNat?
  cases toInt? x with
  | none => simp
  | some i => cases i <;> simp [Int.toNat?]

end Lox.Number
