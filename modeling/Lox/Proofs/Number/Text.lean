import Lox.Proofs.Number.Unpacked
import Lox.Token.Dump
import Lox.Tree.Prefixed
import Lox.Value

/-!
# Texts of numbers

A whole number is written with all digits of the integer that it is equal to (`fixed_whole`), and
the integer of 64 bits that a token dump goes through is that integer, too (`dumped_eq_literal`). So
tokens, trees and values show a number alike, but for the digit after the point (`number_texts`).
-/

namespace Lox.Number

open Float.Model

/-! ### Digits -/

theorem toDigits_shifted {n : Nat} (pos : 0 < n) (places : Nat) :
    Nat.toDigits 10 (n * 10 ^ places) = Nat.toDigits 10 n ++ List.replicate places '0' := by
  induction places with
  | zero => simp
  | succ places ih =>
    have shifted : n * 10 ^ (places + 1) = 10 * (n * 10 ^ places) + 0 := by ring
    have left : 0 < n * 10 ^ places := by positivity
    rw [shifted, ← Nat.toDigits_append_toDigits (by norm_num) left (by norm_num), ih,
      Nat.toDigits_zero, List.append_assoc, ← List.replicate_succ']

theorem toList_zeros (count : Nat) : (zeros count).toList = List.replicate count '0' :=
  String.toList_ofList

/-- The digits of a number with that many digits after the point. -/
def paddedDigits (digits places : Nat) : List Char :=
  List.replicate (places + 1 - (Nat.toDigits 10 digits).length) '0' ++ Nat.toDigits 10 digits

/-- With a negative exponent the point stands among the padded digits. -/
theorem positional_toList (digits : Nat) {places : Nat} (pos : 0 < places) :
    (Decimal.mk digits (-places)).positional.toList =
      (paddedDigits digits places).take ((paddedDigits digits places).length - places) ++
        '.' :: (paddedDigits digits places).drop ((paddedDigits digits places).length - places) := by
  have fraction : ¬(0 : Int) ≤ -(places : Int) := by omega
  have count : (- -(places : Int)).toNat = places := by omega
  have padded : zeros (places + 1 - (Nat.repr digits).length) ++ Nat.repr digits =
      String.ofList (paddedDigits digits places) := by
    apply String.toList_inj.1
    rw [String.toList_append, toList_zeros, Nat.toList_repr, ← String.length_toList,
      Nat.toList_repr, String.toList_ofList, paddedDigits]
  have point : ".".toList = ['.'] := rfl
  simp only [Decimal.positional, if_neg fraction, count, padded, String.length_ofList,
    String.toList_append, String.toList_ofList, List.append_assoc, point, List.singleton_append]

theorem paddedDigits_shifted (n places : Nat) :
    paddedDigits (n * 10 ^ places) places = Nat.toDigits 10 n ++ List.replicate places '0' := by
  unfold paddedDigits
  rcases Nat.eq_zero_or_pos n with rfl | pos
  · rw [Nat.zero_mul, Nat.toDigits_zero, List.length_singleton, Nat.add_sub_cancel,
      ← List.replicate_succ']
    rfl
  · have some : 0 < (Nat.toDigits 10 n).length := Nat.length_toDigits_pos
    have unpadded : places + 1 - ((Nat.toDigits 10 n).length + places) = 0 := by omega
    rw [toDigits_shifted pos, List.length_append, List.length_replicate, unpadded]
    rfl

/-- The digits of a natural number, and as many zeros after the point as there are places. -/
theorem positional_places (n places : Nat) :
    (Decimal.mk (n * 10 ^ places) (-places)).positional =
      Nat.repr n ++ if places = 0 then "" else "." ++ zeros places := by
  rcases Nat.eq_zero_or_pos places with rfl | pos
  · simp [Decimal.positional, zeros]
  · rw [if_neg (Nat.ne_of_gt pos)]
    apply String.toList_inj.1
    rw [positional_toList _ pos, paddedDigits_shifted, List.length_append, List.length_replicate,
      Nat.add_sub_cancel, List.take_left, List.drop_left, String.toList_append, String.toList_append,
      toList_zeros, Nat.toList_repr]
    rfl

/-! ### Fixed places -/

theorem nearest_exact (n : Nat) {den : Nat} (pos : 0 < den) : nearest (n * den) den = n := by
  have rest : n * den % den = 0 := Nat.mul_mod_left n den
  have floor : n * den / den = n := Nat.mul_div_cancel n pos
  unfold nearest
  simp only [rest, floor]
  rw [if_neg]
  omega

/-- The fraction that is rounded, if the number is whole. -/
theorem natural?_fraction {mantissa : Nat} {exponent : Int} {n : Nat}
    (h : Binary.natural? mantissa exponent = some n) :
    mantissa * Nat.pow 2 exponent.toNat = n * Nat.pow 2 (-exponent).toNat := by
  unfold Binary.natural? at h
  split at h
  · next whole =>
    have none : (-exponent).toNat = 0 := by omega
    rw [← Option.some.inj h, none]
    simp
  · next fraction =>
    have none : exponent.toNat = 0 := by omega
    dsimp only at h
    split at h
    · next even =>
      rw [← Option.some.inj h, none, Nat.div_mul_cancel (Nat.dvd_of_mod_eq_zero even)]
      simp
    · cases h

theorem signed_repr {negative : Bool} {n : Nat} (h : negative = true → n ≠ 0) :
    sign negative ++ Nat.repr n = toString (if negative then -(n : Int) else n) := by
  cases negative with
  | false => exact String.empty_append
  | true =>
    obtain ⟨k, rfl⟩ := Nat.exists_eq_succ_of_ne_zero (h rfl)
    rfl

/-- The negative zero is the only number whose sign the integer does not show. -/
theorem negative_nonzero {x : Float} {negative : Bool} {mantissa : Nat} {exponent : Int} {n : Nat}
    (nonzero : x ≠ -0.0) (fields : decode x = .finite negative mantissa exponent)
    (whole : Binary.natural? mantissa exponent = some n) : negative = true → n ≠ 0 := by
  rintro rfl rfl
  have canonical := decode_canonical fields
  have none : mantissa = 0 := by
    have value := natural?_eq_some.1 whole
    have scale : (2 : ℚ) ^ exponent ≠ 0 := by positivity
    simpa [scale] using value
  subst none
  obtain rfl : exponent = -1074 :=
    Int.le_antisymm (Int.not_lt.1 fun above => by have := canonical.normal above; omega)
      canonical.least
  exact nonzero (decode_injective (fields.trans (by decide +kernel)))

theorem fixed_whole {x : Float} {i : Int} (nonzero : x ≠ -0.0) (whole : toInt? x = some i)
    (places : Nat) :
    fixed places x = toString i ++ if places = 0 then "" else "." ++ zeros places := by
  unfold toInt? at whole
  unfold fixed
  cases fields : decode x with
  | nan => rw [fields] at whole; cases whole
  | infinite negative => rw [fields] at whole; cases whole
  | finite negative mantissa exponent =>
    rw [fields] at whole
    simp only [Binary.whole?, Option.map_map, Option.map_eq_some_iff, Function.comp_apply] at whole
    obtain ⟨n, known, rfl⟩ := whole
    have num : mantissa * Nat.pow 2 exponent.toNat * Nat.pow 10 places =
        n * 10 ^ places * Nat.pow 2 (-exponent).toNat := by
      rw [natural?_fraction known, Nat.pow_eq, Nat.pow_eq]
      ring
    have scale : 0 < Nat.pow 2 (-exponent).toNat := Nat.two_pow_pos _
    simp only [num]
    rw [nearest_exact _ scale, positional_places, ← String.append_assoc,
      signed_repr (negative_nonzero nonzero fields known)]

/-! ### The path through 64 bits -/

/-- What an unpacked number is equal to. -/
theorem value?_eq (x : Float) : value? x = (Binary.ofUnpacked x.toModel.unpack).value? :=
  congrArg Binary.value? (decode_eq x)

/-- The greatest integer of 64 bits has more digits than a mantissa and is rounded up. -/
theorem unpack_longBound :
    longBound.toModel.unpack = .finite .positive (2 ^ 52) 11 (Nat.two_pow_pos 52) := by
  rfl

/-- A number is compared with a power of two by its exponent first. -/
theorem Canonical.lt_iff {mantissa : Nat} {exponent : Int} (h : Canonical mantissa exponent) :
    (mantissa * 2 ^ exponent : ℚ) < 2 ^ 63 ↔ exponent < 11 ∨ exponent = 11 ∧ mantissa < 2 ^ 52 := by
  rcases lt_trichotomy exponent 11 with below | rfl | above
  · refine iff_of_true ?_ (.inl below)
    have fits : (mantissa : ℚ) < 2 ^ 53 := by exact_mod_cast h.fits
    calc (mantissa * 2 ^ exponent : ℚ) < 2 ^ 53 * 2 ^ exponent := by gcongr
      _ ≤ 2 ^ 53 * 2 ^ (10 : Int) := by gcongr; norm_num; omega
      _ = 2 ^ 63 := by norm_num
  · have scale : (mantissa * 2 ^ (11 : Int) : ℚ) < 2 ^ 63 ↔ (mantissa : ℚ) < 2 ^ 52 := by
      rw [show (2 ^ 63 : ℚ) = 2 ^ 52 * 2 ^ (11 : Int) by norm_num]
      exact mul_lt_mul_iff_of_pos_right (by positivity)
    rw [scale]
    exact ⟨fun small => .inr ⟨rfl, by exact_mod_cast small⟩,
      fun h => by exact_mod_cast (h.resolve_left (lt_irrefl _)).2⟩
  · refine iff_of_false (not_lt.2 ?_) (by omega)
    have wide : (2 ^ 52 : ℚ) ≤ mantissa := by exact_mod_cast h.normal (by omega)
    calc (2 ^ 63 : ℚ) = 2 ^ 52 * 2 ^ (11 : Int) := by norm_num
      _ ≤ mantissa * 2 ^ exponent := by gcongr; norm_num

theorem lex_lt_iff {e e' : Int} {m m' : Nat} :
    (compare e e').then (compare m m') = .lt ↔ e < e' ∨ e = e' ∧ m < m' := by
  rw [Ordering.then_eq_lt, compare_lt_iff_lt, compare_lt_iff_lt, compare_eq_iff_eq]

theorem float_lt_iff {x y : Float} :
    x < y ↔ x.toModel.unpack.compare y.toModel.unpack = some .lt := by
  show decide (x.toModel.unpack.lt y.toModel.unpack = true) = true ↔ _
  rw [decide_eq_true_iff, UnpackedFloat.lt, beq_iff_eq]

/-- The bound is one more than the greatest integer of 64 bits. -/
theorem abs_lt_longBound {x : Float} {i : Int} (whole : value? x = some (i : ℚ)) :
    x.abs < longBound ↔ |i| < 2 ^ 63 := by
  rw [float_lt_iff, unpack_abs, unpack_longBound]
  rw [value?_eq] at whole
  cases unpacked : x.toModel.unpack with
  | notANumber => rw [unpacked] at whole; cases whole
  | infinity sign => rw [unpacked] at whole; cases whole
  | zero sign =>
    rw [unpacked] at whole
    have none : (i : ℚ) = 0 := by
      rw [← Option.some.inj whole, Nat.cast_zero, zero_mul, mul_zero]
    refine iff_of_true rfl ?_
    rw [Int.cast_eq_zero.1 none]
    norm_num
  | finite sign mantissa exponent pos =>
    rw [unpacked] at whole
    have magnitude : (mantissa * 2 ^ exponent : ℚ) = |(i : ℚ)| := by
      rw [← Option.some.inj whole, abs_mul, abs_of_nonneg (show (0 : ℚ) ≤ _ * _ by positivity)]
      split <;> simp
    have canonical := unpack_canonical unpacked
    show some _ = some _ ↔ _
    rw [Option.some_inj, lex_lt_iff, ← canonical.lt_iff, magnitude]
    exact_mod_cast Iff.rfl

theorem signed_whole {sign : UnpackedFloat.Sign} {mantissa : Nat} {exponent i : Int}
    (h : ((if isNegative sign then -1 else 1) * (mantissa * 2 ^ exponent) : ℚ) = i) :
    ∃ n, Binary.natural? mantissa exponent = some n ∧ i = sign.apply n := by
  have magnitude : (0 : ℚ) ≤ mantissa * 2 ^ exponent := by positivity
  have absolute : (mantissa * 2 ^ exponent : ℚ) = i.natAbs := by
    rw [Nat.cast_natAbs, Int.cast_abs, ← h, abs_mul, abs_of_nonneg magnitude]
    split <;> simp
  refine ⟨i.natAbs, natural?_eq_some.2 absolute, ?_⟩
  cases sign with
  | positive =>
    have above : (0 : ℚ) ≤ i := by simpa [isNegative, ← h] using magnitude
    exact (Int.natAbs_of_nonneg (Int.cast_nonneg_iff.1 above)).symm
  | negative =>
    have below : (i : ℚ) ≤ 0 := by simpa [isNegative, ← h] using magnitude
    show i = -(i.natAbs : Int)
    have := Int.cast_nonpos.1 below
    omega

theorem roundToInt_whole (sign : UnpackedFloat.Sign) {mantissa : Nat} {exponent : Int} {n : Nat}
    (whole : Binary.natural? mantissa exponent = some n) :
    UnpackedFloat.roundToInt sign mantissa exponent = sign.apply n := by
  have scaled : mantissa <<< exponent.toNat = n * 2 ^ (-exponent).toNat := by
    rw [Nat.shiftLeft_eq]
    exact natural?_fraction whole
  have amount : (0 - (exponent - exponent.toNat)).toNat = (-exponent).toNat := by omega
  simp only [UnpackedFloat.roundToInt, UnpackedFloat.decreaseExponent, Int.sub_zero, scaled,
    UnpackedFloat.shiftToExponent, amount]
  exact congrArg (fun shifted : UnpackedFloat.ExtendedMantissa => sign.apply shifted.mantissa)
    (repeat_shiftRightOne n _)

/-- Rounding towards zero leaves a whole number as it is. -/
theorem toInt_whole {x : Float} {i : Int} (whole : value? x = some (i : ℚ)) (least most : Int) :
    x.toModel.unpack.toInt least most = i := by
  rw [value?_eq] at whole
  cases unpacked : x.toModel.unpack with
  | notANumber => rw [unpacked] at whole; cases whole
  | infinity sign => rw [unpacked] at whole; cases whole
  | zero sign =>
    rw [unpacked] at whole
    have none : (i : ℚ) = 0 := by
      rw [← Option.some.inj whole, Nat.cast_zero, zero_mul, mul_zero]
    exact (Int.cast_eq_zero.1 none).symm
  | finite sign mantissa exponent pos =>
    rw [unpacked] at whole
    obtain ⟨n, known, rfl⟩ := signed_whole (Option.some.inj whole)
    exact roundToInt_whole sign known

/-- Inside the bound the integer of 64 bits is the number itself. -/
theorem toInt64_whole {x : Float} {i : Int} (whole : value? x = some (i : ℚ))
    (fits : |i| < 2 ^ 63) : x.toModel.toInt64.toInt = i := by
  have bounds := abs_lt.1 fits
  show (Int64.ofIntClamp (x.toModel.unpack.toInt _ _)).toInt = i
  rw [toInt_whole whole]
  refine Int64.toInt_ofIntClamp ?_ ?_
  · show -2 ^ 63 ≤ i
    omega
  · show i ≤ 2 ^ 63 - 1
    omega

/-! ### Agreement -/

theorem isWhole_iff {x : Float} : isWhole x = true ↔ ∃ i, toInt? x = some i :=
  Option.isSome_iff_exists

/-- Both branches of a token dump show a whole number as a tree does. -/
theorem dumped_eq_literal {x : Float} (nonzero : x ≠ -0.0) : dumped x = literal x := by
  unfold dumped literal
  by_cases whole : isWhole x = true
  · obtain ⟨i, known⟩ := isWhole_iff.1 whole
    have value := toInt?_eq_some.1 known
    rw [if_pos whole, fixed_whole nonzero known]
    split
    · next within =>
      show toString x.toModel.toInt64.toInt ++ ".0" = toString i ++ ("." ++ zeros 1)
      rw [toInt64_whole value ((abs_lt_longBound value).1 within.2)]
      rfl
    · rfl
  · rw [if_neg whole, if_neg fun both => whole both.1]

end Lox.Number

namespace Lox

open Number

/-- For every number but the negative zero: a token and a tree show the same text, the text of the
value with `.0` after it if the number is an integer, and that text of an integer is exact. -/
theorem number_texts {x : Float} (nonzero : x ≠ -0.0) (lexeme : String) (line : Nat) :
    (Token.mk (.number x) lexeme line).display =
        "NUMBER " ++ lexeme ++ " " ++ (Expr.literal (.number x)).prefixed ∧
      (∀ i : Int, value? x = some (i : ℚ) → (Value.number x).text = toString i ∧
        (Expr.literal (.number x)).prefixed = (Value.number x).text ++ ".0") ∧
      ((∀ i : Int, value? x ≠ some (i : ℚ)) →
        (Expr.literal (.number x)).prefixed = (Value.number x).text) := by
  have tree : (Expr.literal (.number x)).prefixed = literal x := by
    rw [Expr.prefixed, Literal.prefixed]
  have value : (Value.number x).text = printed x := rfl
  rw [tree, value]
  refine ⟨?_, fun i whole => ?_, fun fraction => ?_⟩
  · show "NUMBER" ++ " " ++ lexeme ++ " " ++ dumped x = _
    rw [dumped_eq_literal nonzero]
    rfl
  · have known := toInt?_eq_some.2 whole
    have test := isWhole_iff.2 ⟨i, known⟩
    rw [printed, literal, if_pos test, if_pos test, fixed_whole nonzero known,
      fixed_whole nonzero known]
    exact ⟨String.append_empty, congrArg (· ++ ".0") String.append_empty.symm⟩
  · have test : ¬isWhole x = true := fun test => by
      obtain ⟨i, known⟩ := isWhole_iff.1 test
      exact fraction i (toInt?_eq_some.1 known)
    rw [printed, literal, if_neg test, if_neg test]

/-- The least number beyond the bound of the 64-bit path, and the greatest within it. -/
theorem number_texts_cutOver :
    (9223372036854775808.0 : Float) ≠ -0.0 ∧ (9223372036854774784.0 : Float) ≠ -0.0 ∧
      (Token.mk (.number 9223372036854775808.0) "9223372036854775807" 1).display =
        "NUMBER 9223372036854775807 9223372036854775808.0" ∧
      (Token.mk (.number 9223372036854774784.0) "9223372036854774784" 1).display =
        "NUMBER 9223372036854774784 9223372036854774784.0" := by
  have beyond : (9223372036854775808.0 : Float) ≠ -0.0 := by decide +kernel
  have within : (9223372036854774784.0 : Float) ≠ -0.0 := by decide +kernel
  obtain ⟨shown, whole, -⟩ := number_texts beyond "9223372036854775807" 1
  obtain ⟨shown', whole', -⟩ := number_texts within "9223372036854774784" 1
  obtain ⟨text, tree⟩ := whole 9223372036854775808 (toInt?_eq_some.1 (by decide +kernel))
  obtain ⟨text', tree'⟩ := whole' 9223372036854774784 (toInt?_eq_some.1 (by decide +kernel))
  refine ⟨beyond, within, ?_, ?_⟩
  · rw [shown, tree, text]
    rfl
  · rw [shown', tree', text']
    rfl

end Lox
