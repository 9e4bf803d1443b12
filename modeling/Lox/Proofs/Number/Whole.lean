import Mathlib
import Lox.Proofs.Number.Exact

/-!
# Whole numbers as doubles

A natural number below `2 ^ 53` is converted to the double that is equal to it (`value?_toFloat`). The
conversion multiplies by a power of ten, here by one, which needs no rounding.
-/

namespace Lox.Number

open Float.Model

/-- A mantissa that is shifted back by as many zeros as it has is not rounded. -/
theorem repeat_shiftRightOne (mantissa zeros : Nat) :
    Nat.repeat UnpackedFloat.ExtendedMantissa.shiftRightOne zeros
      ⟨mantissa * 2 ^ zeros, false, false⟩ = ⟨mantissa, false, false⟩ := by
  induction zeros generalizing mantissa with
  | zero => simp [Nat.repeat]
  | succ zeros ih =>
    have step := ih (mantissa * 2)
    rw [show mantissa * 2 * 2 ^ zeros = mantissa * 2 ^ (zeros + 1) by ring] at step
    rw [Nat.repeat, step]
    simp [UnpackedFloat.ExtendedMantissa.shiftRightOne]

theorem exponent_field {exponent : Int} (least : -1074 ≤ exponent) (most : exponent ≤ 971) :
    (BitVec.ofNat 11 (exponent + 1075).toNat).toNat = (exponent + 1075).toNat := by
  rw [BitVec.toNat_ofNat]
  omega

theorem sign_field (sign : UnpackedFloat.Sign) (exponent : BitVec 11) (fraction : BitVec 52) :
    UnpackedFloat.Sign.ofBitVec (UnpackedFloat.unpackSign
      (UnpackedFloat.packComponents Format.binary64 sign exponent fraction)) = sign := by
  simp only [UnpackedFloat.unpackSign, UnpackedFloat.packComponents, BitVec.extractLsb]
  rw [BitVec.extractLsb'_append_eq_of_le (by omega), BitVec.extractLsb'_append_eq_of_le (by omega)]
  cases sign <;> rfl

theorem hiddenBit_eq : hiddenBit = 2 ^ 52 := by norm_num [hiddenBit]

/-- A mantissa of 53 bits. -/
structure Normal (mantissa : Nat) : Prop where
  least : 2 ^ 52 ≤ mantissa
  most : mantissa < 2 ^ 53

section Normal

variable {mantissa : Nat} (normal : Normal mantissa)

include normal

theorem Normal.pos : 0 < mantissa := Nat.lt_of_lt_of_le (by norm_num) normal.least

theorem Normal.log2 (zeros : Nat) : (mantissa * 2 ^ zeros).log2 = 52 + zeros := by
  have pos : mantissa * 2 ^ zeros ≠ 0 := Nat.ne_of_gt (Nat.mul_pos normal.pos (by positivity))
  rw [Nat.log2_eq_iff pos]
  constructor
  · rw [Nat.pow_add]
    exact Nat.mul_le_mul_right _ normal.least
  · rw [show 52 + zeros + 1 = 53 + zeros by ring, Nat.pow_add]
    exact Nat.mul_lt_mul_of_pos_right normal.most (by positivity)

/-! ### Rounding -/

theorem shift_normal {exponent : Int} (least : -1074 ≤ exponent) (zeros : Nat) :
    UnpackedFloat.shiftToTargetExponent Format.binary64 (mantissa * 2 ^ zeros) (exponent - zeros)
      .exact = (⟨mantissa, false, false⟩, exponent) := by
  have target : Format.binary64.targetExponent
      (Float.Model.totalExponent (mantissa * 2 ^ zeros) (exponent - zeros)) = exponent := by
    unfold Format.targetExponent Float.Model.totalExponent
    rw [normal.log2]
    simp only [Format.mantissaBits, Format.minExponent]
    omega
  unfold UnpackedFloat.shiftToTargetExponent UnpackedFloat.shiftToExponent
  rw [target]
  have amount : (exponent - (exponent - zeros)).toNat = zeros := by omega
  simp only [amount]
  exact Prod.ext (repeat_shiftRightOne mantissa zeros) (by simp)

theorem round_normal (sign : UnpackedFloat.Sign) {exponent : Int} (least : -1074 ≤ exponent)
    (zeros : Nat) : UnpackedFloat.roundWithAccuracy Format.binary64 sign (mantissa * 2 ^ zeros)
      (exponent - zeros) .exact = .finite sign mantissa exponent normal.pos := by
  have again := shift_normal normal least 0
  simp only [Nat.pow_zero, Nat.mul_one, Int.natCast_zero, Int.sub_zero] at again
  have kept :
      (⟨mantissa, false, false⟩ : UnpackedFloat.ExtendedMantissa).roundedMantissa = mantissa := rfl
  simp only [UnpackedFloat.roundWithAccuracy, shift_normal normal least zeros, kept, again,
    Nat.ne_of_gt normal.pos, ↓reduceDIte]

/-! ### Packing -/

/-- The fields of a number with a mantissa of 53 bits. -/
theorem pack_normal (sign : UnpackedFloat.Sign) {exponent : Int} (least : -1074 ≤ exponent)
    (most : exponent ≤ 971) :
    UnpackedFloat.pack Format.binary64 (.finite sign mantissa exponent normal.pos) =
      UnpackedFloat.packComponents Format.binary64 sign (BitVec.ofNat 11 (exponent + 1075).toNat)
        (BitVec.ofNat 52 mantissa) := by
  have bits := normal.log2 0
  simp only [Nat.pow_zero, Nat.mul_one] at bits
  have biased : exponent + Format.binary64.exponentBias +
      Format.binary64.mantissaBitsWithoutImplicit = exponent + 1075 := by
    simp only [Format.exponentBias]
    omega
  rw [UnpackedFloat.pack.eq_4, biased, bits, if_neg (by simp only []; omega), if_pos (by decide)]

theorem Normal.fraction : (BitVec.ofNat 52 mantissa).toNat = mantissa - 2 ^ 52 := by
  have := normal.least
  have := normal.most
  rw [BitVec.toNat_ofNat]
  omega

theorem unpack_pack_normal (sign : UnpackedFloat.Sign) {exponent : Int} (least : -1074 ≤ exponent)
    (most : exponent ≤ 971) :
    (Float.Model.pack (.finite sign mantissa exponent normal.pos)).unpack =
      .finite sign mantissa exponent normal.pos := by
  have field := exponent_field least most
  have whole : (1#1 ++ BitVec.ofNat 52 mantissa).toNat = mantissa := by
    have := normal.least
    rw [BitVec.toNat_append, ← Nat.shiftLeft_add_eq_or_of_lt (BitVec.isLt _), normal.fraction]
    simp [Nat.shiftLeft_eq]
    omega
  have finite : BitVec.ofNat 11 (exponent + 1075).toNat ≠ -1#11 := by
    intro same
    rw [same] at field
    simp at field
    omega
  have normalized : BitVec.ofNat 11 (exponent + 1075).toNat ≠ 0#11 := by
    intro same
    rw [same] at field
    simp at field
    omega
  show UnpackedFloat.unpack Format.binary64 (UnpackedFloat.pack Format.binary64 _) = _
  rw [pack_normal normal sign least most, UnpackedFloat.unpack.eq_1]
  simp only [UnpackedFloat.unpackExponent_packComponents, UnpackedFloat.unpackMantissa_packComponents,
    sign_field, if_neg finite, if_neg normalized, whole, field, Format.exponentBias]
  congr 1
  omega

theorem decode_normal {exponent : Int} (least : -1074 ≤ exponent) (most : exponent ≤ 971) :
    decode ⟨Float.Model.pack (.finite .positive mantissa exponent normal.pos)⟩ =
      .finite false mantissa exponent := by
  have field := exponent_field least most
  have := normal.least
  have := normal.most
  have bits : (UnpackedFloat.pack Format.binary64
      (.finite .positive mantissa exponent normal.pos)).toNat =
        (exponent + 1075).toNat * 2 ^ 52 + (mantissa - 2 ^ 52) := by
    rw [pack_normal normal .positive least most]
    show (0#1 ++ BitVec.ofNat 11 _ ++ BitVec.ofNat 52 mantissa).toNat = _
    rw [BitVec.toNat_append, ← Nat.shiftLeft_add_eq_or_of_lt (BitVec.isLt _), BitVec.toNat_append,
      normal.fraction, field]
    simp [Nat.shiftLeft_eq]
  show decodeBits (UnpackedFloat.pack Format.binary64 _).toNat = _
  rw [bits]
  unfold decodeBits
  simp only [Nat.shiftRight_eq_div_pow, hiddenBit_eq]
  have exponentField : ((exponent + 1075).toNat * 2 ^ 52 + (mantissa - 2 ^ 52)) / 2 ^ 52 % 2048 =
      (exponent + 1075).toNat := by
    omega
  have fractionField : ((exponent + 1075).toNat * 2 ^ 52 + (mantissa - 2 ^ 52)) % 2 ^ 52 =
      mantissa - 2 ^ 52 := by
    omega
  have signField : ((exponent + 1075).toNat * 2 ^ 52 + (mantissa - 2 ^ 52)) / 2 ^ 63 % 2 = 0 := by
    omega
  rw [exponentField, fractionField, signField, if_neg (by omega), if_neg (by omega)]
  have whole : 2 ^ 52 + (mantissa - 2 ^ 52) = mantissa := by omega
  have shift : leastExponent + ((exponent + 1075).toNat - 1 : Nat) = exponent := by
    unfold leastExponent
    omega
  rw [whole, shift]
  rfl

end Normal

/-! ### Conversion -/

/-- With zeros added up to the width of the mantissa. -/
theorem normal_widened {n zeros : Nat} (pos : 0 < n) (width : n.log2 + zeros = 52) :
    Normal (n * 2 ^ zeros) := by
  obtain ⟨least, most⟩ := (Nat.log2_eq_iff (Nat.ne_of_gt pos)).1 rfl
  constructor
  · rw [← width, Nat.pow_add]
    exact Nat.mul_le_mul_right _ least
  · rw [show 53 = n.log2 + 1 + zeros by omega, Nat.pow_add]
    exact Nat.mul_lt_mul_of_pos_right most (by positivity)

theorem ofNat_widened {n zeros : Nat} (pos : 0 < n) (width : n.log2 + zeros = 52) :
    UnpackedFloat.ofNat Format.binary64 n =
      .finite .positive (n * 2 ^ zeros) (-zeros) (normal_widened pos width).pos := by
  have target : Format.binary64.targetExponent (Float.Model.totalExponent n 0) = -zeros := by
    unfold Format.targetExponent Float.Model.totalExponent
    simp only [Format.mantissaBits, Format.minExponent]
    omega
  have rounded := round_normal (normal_widened pos width) .positive
    (show -1074 ≤ -(zeros : Int) by omega) 0
  simp only [Nat.pow_zero, Nat.mul_one, Int.natCast_zero, Int.sub_zero] at rounded
  have positive : compare (n : Int) 0 = .gt := by
    rw [Int.compare_eq_gt]
    omega
  simp only [UnpackedFloat.ofNat, UnpackedFloat.ofInt, UnpackedFloat.normalize, positive,
    Int.toNat_natCast, UnpackedFloat.round, target, UnpackedFloat.decreaseExponent]
  simpa [Nat.shiftLeft_eq] using rounded

theorem unpack_one : (Float.ofBits 0x3ff0000000000000).toModel.unpack =
    .finite .positive (2 ^ 52) (-52) (Nat.two_pow_pos 52) := by
  rfl

/-- A natural number that fits the mantissa is converted without loss. -/
theorem value?_toFloat {n : Nat} (fits : n < 2 ^ 53) : value? n.toFloat = some (n : ℚ) := by
  rcases Nat.eq_zero_or_pos n with rfl | pos
  · exact toNat?_eq_some.1 (by decide +kernel)
  have width : n.log2 + (52 - n.log2) = 52 := by
    have := (Nat.log2_lt (Nat.ne_of_gt pos)).2 fits
    omega
  generalize 52 - n.log2 = zeros at width
  have normal := normal_widened pos width
  have small : n.toUInt64.toNat = n :=
    UInt64.toNat_ofNat_of_lt (Nat.lt_trans fits (by norm_num))
  have converted : n.toUInt64.toFloat.toModel.unpack =
      .finite .positive (n * 2 ^ zeros) (-zeros) normal.pos := by
    show (Float.Model.pack (UnpackedFloat.ofNat Format.binary64 n.toUInt64.toNat)).unpack = _
    rw [small, ofNat_widened pos width, unpack_pack_normal normal _ (by omega) (by omega)]
  have product := round_normal normal .positive (show -1074 ≤ -(zeros : Int) by omega) 52
  have multiplied : n.toFloat = n.toUInt64.toFloat * Float.ofBits 0x3ff0000000000000 := by
    show Float.ofScientific n false 0 = _
    unfold Float.ofScientific
    rw [dif_pos ⟨fits, by norm_num⟩]
    rfl
  have exact : n.toFloat =
      ⟨Float.Model.pack (.finite .positive (n * 2 ^ zeros) (-zeros) normal.pos)⟩ := by
    rw [multiplied]
    show (⟨Float.Model.pack (UnpackedFloat.mul Format.binary64 n.toUInt64.toFloat.toModel.unpack
      (Float.ofBits 0x3ff0000000000000).toModel.unpack)⟩ : Float) = _
    rw [converted, unpack_one]
    exact congrArg (fun unpacked => (⟨Float.Model.pack unpacked⟩ : Float)) product
  rw [value?, exact, decode_normal normal (by omega) (by omega)]
  simp only [Binary.value?, Bool.false_eq_true, ↓reduceIte, one_mul, Option.some_inj]
  rw [zpow_neg, zpow_natCast]
  push_cast
  exact mul_inv_cancel_right₀ (by positivity) _

end Lox.Number
