import Lox.Proofs.Number.Whole

/-!
# Doubles and their fields

The library computes with doubles that are unpacked into sign, mantissa and exponent; `decode` reads
the same fields (`decode_eq`). A mantissa has as many bits as it can have (`Canonical`), so that
unpacked numbers are packed without loss and no two doubles have the same fields (`decode_injective`).
-/

namespace Lox.Number

open Float.Model

/-- The sign of an unpacked number, as `decode` reads it. -/
def isNegative : UnpackedFloat.Sign → Bool
  | .negative => true
  | .positive => false

def Binary.ofUnpacked : UnpackedFloat → Binary
  | .notANumber => .nan
  | .infinity sign => .infinite (isNegative sign)
  | .zero sign => .finite (isNegative sign) 0 leastExponent
  | .finite sign mantissa exponent _ => .finite (isNegative sign) mantissa exponent

/-! ### Fields -/

section Fields

variable (b : BitVec Format.binary64.numBits)

theorem unpackExponent_toNat :
    (UnpackedFloat.unpackExponent b).toNat = b.toNat / 2 ^ 52 % 2048 := by
  show (b.toNat >>> 52) % 2 ^ 11 = _
  rw [Nat.shiftRight_eq_div_pow]

theorem unpackMantissa_toNat : (UnpackedFloat.unpackMantissa b).toNat = b.toNat % 2 ^ 52 := by
  show (b.toNat >>> 0) % 2 ^ 52 = _
  rw [Nat.shiftRight_zero]

theorem unpackSign_toNat : (UnpackedFloat.unpackSign b).toNat = b.toNat / 2 ^ 63 % 2 := by
  show (b.toNat >>> 63) % 2 ^ 1 = _
  rw [Nat.shiftRight_eq_div_pow]

theorem isNegative_unpackSign :
    isNegative (.ofBitVec (UnpackedFloat.unpackSign b)) = (b.toNat / 2 ^ 63 % 2 == 1) := by
  have bit : ∀ v : BitVec 1, isNegative (.ofBitVec v) = (v.toNat == 1) := by decide
  rw [bit, unpackSign_toNat]

end Fields

theorem toNat_one_append (v : BitVec 52) : (1#1 ++ v).toNat = 2 ^ 52 + v.toNat := by
  rw [BitVec.toNat_append, ← Nat.shiftLeft_add_eq_or_of_lt v.isLt]
  simp [Nat.shiftLeft_eq]

theorem decodeBits_eq (b : BitVec Format.binary64.numBits) :
    decodeBits b.toNat = .ofUnpacked (UnpackedFloat.unpack Format.binary64 b) := by
  have exponentField := unpackExponent_toNat b
  have mantissaField := unpackMantissa_toNat b
  have signField := isNegative_unpackSign b
  unfold decodeBits UnpackedFloat.unpack
  simp only [Nat.shiftRight_eq_div_pow, hiddenBit_eq, ← exponentField, ← mantissaField, ← signField]
  have all : UnpackedFloat.unpackExponent b = -1#11 ↔ (UnpackedFloat.unpackExponent b).toNat = 2047 :=
    BitVec.toNat_eq
  have none : UnpackedFloat.unpackExponent b = 0#11 ↔ (UnpackedFloat.unpackExponent b).toNat = 0 :=
    BitVec.toNat_eq
  have blank : UnpackedFloat.unpackMantissa b = 0#52 ↔ (UnpackedFloat.unpackMantissa b).toNat = 0 :=
    BitVec.toNat_eq
  by_cases special : (UnpackedFloat.unpackExponent b).toNat = 2047
  · rw [if_pos special, if_pos (all.2 special)]
    split
    · next empty => rw [if_pos (blank.2 empty)]; rfl
    · next rest => rw [if_neg fun same => rest (blank.1 same)]; rfl
  rw [if_neg special, if_neg fun same => special (all.1 same)]
  by_cases least : (UnpackedFloat.unpackExponent b).toNat = 0
  · rw [if_pos least, if_pos (none.2 least), least]
    split
    · next empty => rw [blank.1 empty]; rfl
    · rfl
  · rw [if_neg least, if_neg fun same => least (none.1 same)]
    show Binary.finite _ _ _ = .finite _ _ _
    rw [toNat_one_append]
    congr 1
    show leastExponent + (((UnpackedFloat.unpackExponent b).toNat - 1 : Nat) : Int) =
      ((UnpackedFloat.unpackExponent b).toNat : Int) - (1023 + 52)
    unfold leastExponent
    omega

/-- Both ways of reading a double agree. -/
theorem decode_eq (x : Float) : decode x = .ofUnpacked x.toModel.unpack :=
  decodeBits_eq x.toModel.toBits.toBitVec

/-! ### Canonical fields -/

/-- A mantissa as wide as it can be, with an exponent in range. -/
structure Canonical (mantissa : Nat) (exponent : Int) : Prop where
  fits : mantissa < 2 ^ 53
  least : -1074 ≤ exponent
  most : exponent ≤ 971
  normal : -1074 < exponent → 2 ^ 52 ≤ mantissa

theorem decode_canonical {x : Float} {negative : Bool} {mantissa : Nat} {exponent : Int}
    (h : decode x = .finite negative mantissa exponent) : Canonical mantissa exponent := by
  unfold decode decodeBits at h
  simp only [Nat.shiftRight_eq_div_pow, hiddenBit_eq, leastExponent] at h
  generalize x.toBits.toNat = bits at h
  split at h
  · split at h <;> cases h
  · split at h <;> cases h <;> constructor <;> omega

theorem unpack_canonical {x : Float} {sign : UnpackedFloat.Sign} {mantissa : Nat} {exponent : Int}
    {pos : 0 < mantissa} (h : x.toModel.unpack = .finite sign mantissa exponent pos) :
    Canonical mantissa exponent :=
  decode_canonical ((decode_eq x).trans (congrArg Binary.ofUnpacked h))

theorem unpack_pack_subnormal (sign : UnpackedFloat.Sign) {mantissa : Nat} (pos : 0 < mantissa)
    (small : mantissa < 2 ^ 52) :
    (Float.Model.pack (.finite sign mantissa (-1074) pos)).unpack =
      .finite sign mantissa (-1074) pos := by
  have bits : mantissa.log2 < 52 := (Nat.log2_lt (Nat.ne_of_gt pos)).2 small
  have field : (BitVec.ofNat 52 mantissa).toNat = mantissa := Nat.mod_eq_of_lt small
  have filled : BitVec.ofNat 52 mantissa ≠ 0#52 := by
    intro same
    rw [same] at field
    exact Nat.ne_of_lt pos field
  have packed : UnpackedFloat.pack Format.binary64 (.finite sign mantissa (-1074) pos) =
      UnpackedFloat.packComponents Format.binary64 sign 0#11 (BitVec.ofNat 52 mantissa) := by
    rw [UnpackedFloat.pack.eq_4, if_neg (by decide), if_neg]
    simp only [Format.mantissaBits]
    omega
  show UnpackedFloat.unpack Format.binary64 (UnpackedFloat.pack Format.binary64 _) = _
  rw [packed, UnpackedFloat.unpack.eq_1]
  simp only [UnpackedFloat.unpackExponent_packComponents, UnpackedFloat.unpackMantissa_packComponents,
    sign_field]
  rw [if_neg (by decide), if_pos trivial, dif_neg filled]
  simp only [field, Format.exponentBias]
  rfl

theorem unpack_pack_canonical (sign : UnpackedFloat.Sign) {mantissa : Nat} {exponent : Int}
    (pos : 0 < mantissa) (h : Canonical mantissa exponent) :
    (Float.Model.pack (.finite sign mantissa exponent pos)).unpack =
      .finite sign mantissa exponent pos := by
  by_cases wide : 2 ^ 52 ≤ mantissa
  · exact unpack_pack_normal ⟨wide, h.fits⟩ sign h.least h.most
  · obtain rfl : exponent = -1074 :=
      Int.le_antisymm (Int.not_lt.1 fun above => wide (h.normal above)) h.least
    exact unpack_pack_subnormal sign pos (Nat.not_le.1 wide)

theorem unpack_abs (x : Float) : x.abs.toModel.unpack = x.toModel.unpack.abs := by
  show (Float.Model.pack x.toModel.unpack.abs).unpack = _
  cases unpacked : x.toModel.unpack with
  | notANumber => rfl
  | infinity sign => cases sign <;> rfl
  | zero sign => cases sign <;> rfl
  | finite sign mantissa exponent pos =>
    exact unpack_pack_canonical .positive pos (unpack_canonical unpacked)

/-! ### Fields determine the number -/

theorem decodeBits_injective {a b : Nat} (fits : a < 2 ^ 64) (fits' : b < 2 ^ 64)
    (same : decodeBits a = decodeBits b) (number : decodeBits a ≠ .nan) : a = b := by
  unfold decodeBits at same number
  simp only [Nat.shiftRight_eq_div_pow, hiddenBit_eq, leastExponent] at same number
  have sign : (a / 2 ^ 63 % 2 == 1) = (b / 2 ^ 63 % 2 == 1) →
      a / 2 ^ 63 % 2 = b / 2 ^ 63 % 2 := by
    intro same
    rw [Bool.eq_iff_iff, beq_iff_eq, beq_iff_eq] at same
    omega
  split_ifs at same number <;> simp only [Binary.infinite.injEq, Binary.finite.injEq,
    reduceCtorEq, ne_eq, not_true_eq_false] at same number
  · have := sign same
    omega
  all_goals
    have := sign same.1
    omega

/-- There is only one double that is not a number. -/
theorem unpack_nan {x : Float} (h : x.toModel.unpack = .notANumber) :
    x.toModel.toBits.toBitVec = UnpackedFloat.packedNaN Format.binary64 := by
  have valid := x.toModel.valid
  unfold Float.Model.unpack UnpackedFloat.unpack at h
  dsimp only at h
  split at h
  · next special =>
    split at h
    · cases h
    · next filled => exact valid.eq_packedNaN special filled
  · split at h
    · split at h <;> cases h
    · cases h

theorem unpack_of_decode_nan {x : Float} (h : decode x = .nan) : x.toModel.unpack = .notANumber := by
  rw [decode_eq] at h
  cases unpacked : x.toModel.unpack <;> rw [unpacked] at h <;> first | rfl | cases h

theorem float_ext {x y : Float} (same : x.toBits = y.toBits) : x = y := by
  cases x with | ofModel m =>
  cases y with | ofModel n =>
  cases m
  cases n
  cases same
  rfl

/-- No two doubles have the same fields. -/
theorem decode_injective {x y : Float} (same : decode x = decode y) : x = y := by
  apply float_ext
  by_cases number : decode x = .nan
  · have first := unpack_nan (unpack_of_decode_nan number)
    have second := unpack_nan (unpack_of_decode_nan (same ▸ number))
    exact UInt64.toBitVec_inj.1 (first.trans second.symm)
  · exact UInt64.toNat_inj.1
      (decodeBits_injective x.toBits.toNat_lt y.toBits.toNat_lt same number)

end Lox.Number
