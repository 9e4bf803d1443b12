import Lox.Number.Numeral
import Lox.Proofs.Number.Unpacked
import Lox.Proofs.Token.Lexeme

/-!
# What numerals stand for

A numeral of a source text stands for a number, finite or not, and never for what is no number
(`number_ne_nan`). The conversion scales an integer by a power of ten, and neither rounding nor packing
makes a number into something else.
-/

namespace Lox.Number

open Float.Model

theorem roundWithAccuracy_number (sign : UnpackedFloat.Sign) (mantissa : Nat) (exponent : Int)
    (accuracy : UnpackedFloat.Accuracy) :
    UnpackedFloat.roundWithAccuracy Format.binary64 sign mantissa exponent accuracy ≠
      .notANumber := by
  unfold UnpackedFloat.roundWithAccuracy
  dsimp only
  split <;> nofun

/-- What is packed with an exponent that is not reserved is a number again. -/
theorem unpack_packComponents_number (sign : UnpackedFloat.Sign) {exponent : BitVec 11}
    (mantissa : BitVec 52) (plain : exponent ≠ -1#11) :
    UnpackedFloat.unpack Format.binary64
      (UnpackedFloat.packComponents Format.binary64 sign exponent mantissa) ≠ .notANumber := by
  unfold UnpackedFloat.unpack
  dsimp only
  rw [UnpackedFloat.unpackExponent_packComponents, if_neg plain]
  split
  · split <;> nofun
  · nofun

theorem unpack_packedInfinity (sign : UnpackedFloat.Sign) :
    UnpackedFloat.unpack Format.binary64 (UnpackedFloat.packedInfinity Format.binary64 sign) =
      .infinity sign := by
  cases sign <;> rfl

theorem unpack_pack_number {f : UnpackedFloat} (number : f ≠ .notANumber) :
    (Float.Model.pack f).unpack ≠ .notANumber := by
  show UnpackedFloat.unpack Format.binary64 (UnpackedFloat.pack Format.binary64 f) ≠ _
  cases f with
  | notANumber => exact absurd rfl number
  | infinity sign =>
    rw [UnpackedFloat.pack.eq_2, unpack_packedInfinity]
    nofun
  | zero sign => exact unpack_packComponents_number sign 0#52 (by decide)
  | finite sign mantissa exponent pos =>
    rw [UnpackedFloat.pack.eq_4]
    dsimp only
    split
    · rw [unpack_packedInfinity]
      nofun
    · next below =>
      split
      · refine unpack_packComponents_number sign _ fun same => ?_
        have field := congrArg BitVec.toNat same
        rw [BitVec.toNat_ofNat] at field
        simp at field
        omega
      · exact unpack_packComponents_number sign _ (by decide)

/-! ### Powers of ten -/

theorem mul_number {f g : UnpackedFloat} (number : f ≠ .notANumber) {sign : UnpackedFloat.Sign}
    {mantissa : Nat} {exponent : Int} {pos : 0 < mantissa}
    (finite : g = .finite sign mantissa exponent pos) :
    UnpackedFloat.mul Format.binary64 f g ≠ .notANumber := by
  subst finite
  cases f with
  | notANumber => exact absurd rfl number
  | infinity | zero => nofun
  | finite => exact roundWithAccuracy_number _ _ _ _

theorem div_number {f g : UnpackedFloat} (number : f ≠ .notANumber) {sign : UnpackedFloat.Sign}
    {mantissa : Nat} {exponent : Int} {pos : 0 < mantissa}
    (finite : g = .finite sign mantissa exponent pos) :
    UnpackedFloat.div Format.binary64 f g ≠ .notANumber := by
  subst finite
  cases f with
  | notANumber => exact absurd rfl number
  | infinity | zero => nofun
  | finite => exact roundWithAccuracy_number _ _ _ _

theorem ofNat_number (n : Nat) : UnpackedFloat.ofNat Format.binary64 n ≠ .notANumber := by
  unfold UnpackedFloat.ofNat UnpackedFloat.ofInt UnpackedFloat.normalize
  split
  · exact roundWithAccuracy_number _ _ _ _
  · nofun
  · exact roundWithAccuracy_number _ _ _ _

theorem ofScientific_number (digits : Nat) (exponent : Int) :
    UnpackedFloat.ofScientific Format.binary64 digits exponent ≠ .notANumber := by
  unfold UnpackedFloat.ofScientific
  split
  · nofun
  · split
    · nofun
    · split
      · nofun
      · split
        · exact mul_number nofun rfl
        · exact div_number nofun rfl

def isPositive : UnpackedFloat → Bool
  | .finite _ _ _ _ => true
  | _ => false

theorem isPositive_iff {f : UnpackedFloat} (h : isPositive f = true) :
    ∃ sign mantissa exponent pos, f = .finite sign mantissa exponent pos := by
  cases f with
  | finite sign mantissa exponent pos => exact ⟨sign, mantissa, exponent, pos, rfl⟩
  | _ => cases h

/-- The powers of ten that are doubles. -/
theorem power_finite {e : Nat} (h : e < Float.exactlyRepresentablePowersOfTen.size) :
    ∃ sign mantissa exponent pos, Float.exactlyRepresentablePowersOfTen[e].toModel.unpack =
      .finite sign mantissa exponent pos := by
  have all : Float.exactlyRepresentablePowersOfTen.all (isPositive ·.toModel.unpack) = true := by
    decide +kernel
  exact isPositive_iff (Array.all_eq_true.1 all e h)

/-- Scaling an integer by a power of ten gives a number, by the quick way and by the exact one. -/
theorem floatOfScientific_number (digits : Nat) (negative : Bool) (exponent : Nat) :
    (Float.ofScientific digits negative exponent).toModel.unpack ≠ .notANumber := by
  unfold Float.ofScientific
  split
  · next small =>
    have scaled : digits.toUInt64.toFloat.toModel.unpack ≠ .notANumber :=
      unpack_pack_number (ofNat_number _)
    have inside : exponent < Float.exactlyRepresentablePowersOfTen.size :=
      Nat.lt_succ_of_le small.2
    obtain ⟨sign, mantissa, e, pos, power⟩ := power_finite inside
    dsimp only
    split
    · exact unpack_pack_number (div_number scaled power)
    · exact unpack_pack_number (mul_number scaled power)
  · exact unpack_pack_number (ofScientific_number _ _)

/-! ### Numerals -/

theorem decode_ne_nan {x : Float} (number : x.toModel.unpack ≠ .notANumber) : decode x ≠ .nan :=
  fun none => number (unpack_of_decode_nan none)

theorem toFloat_ne_nan (d : Decimal) : decode d.toFloat ≠ .nan := by
  unfold Decimal.toFloat
  dsimp only
  split
  · decide +kernel
  · split
    · decide +kernel
    · split
      · decide +kernel
      · exact decode_ne_nan (floatOfScientific_number _ _ _)

end Lox.Number

namespace Lox.Scan

open Number

theorem number_ne_nan {text : List Char} {x : Float} (lexeme : Lexeme text (.number x)) :
    decode x ≠ .nan := by
  cases lexeme with
  | number numeral denotes =>
    cases numeral with
    | whole digits =>
      obtain rfl := Option.some.inj ((ofNumeral?_whole digits).symm.trans denotes)
      exact toFloat_ne_nan _
    | fraction digits decimals =>
      obtain rfl := Option.some.inj ((ofNumeral?_fraction digits decimals).symm.trans denotes)
      exact toFloat_ne_nan _

end Lox.Scan
