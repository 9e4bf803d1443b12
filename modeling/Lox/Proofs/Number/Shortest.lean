import Lox.Number.Shortest
import Lox.Proofs.Number.Unpacked

/-!
# Shortest digits read back

The decimal that `shortest` finds is in the interval of its number (`shortest_reads`): on the grid of
seventeen digits two neighbours are closer to each other than the ends of the interval are. No two
numbers have a point in common (`reads_unique`).
-/

namespace Lox.Number

/-- What a decimal is equal to. -/
def Decimal.value (d : Decimal) : ℚ := d.digits * 10 ^ d.exponent

/-- A power with an integral exponent as a quotient of natural ones. -/
theorem pow_div_pow (base : Nat) (pos : 0 < base) (exponent : Int) :
    ((Nat.pow base exponent.toNat : Nat) : ℚ) / (Nat.pow base (-exponent).toNat : Nat) =
      (base : ℚ) ^ exponent := by
  have some : (base : ℚ) ≠ 0 := by positivity
  simp only [Nat.pow_eq, Nat.cast_pow]
  rw [← zpow_natCast, ← zpow_natCast, ← zpow_sub₀ some]
  congr 1
  omega

theorem pow_ten_pos (k : Nat) : 0 < Nat.pow 10 k := Nat.pow_pos (by norm_num)

/-- A point of a decimal grid. -/
theorem grid_point (digits : Nat) (exponent : Int) :
    ((digits * Nat.pow 10 exponent.toNat : Nat) : ℚ) / (Nat.pow 10 (-exponent).toNat : Nat) =
      digits * 10 ^ exponent := by
  rw [Nat.cast_mul, mul_div_assoc, pow_div_pow 10 (by norm_num)]
  norm_num

/-- Trailing zeros of the digits go into the exponent. -/
theorem value_dropZeros (fuel digits : Nat) (exponent : Int) :
    (Decimal.dropZeros fuel digits exponent).value = digits * 10 ^ exponent := by
  induction fuel generalizing digits exponent with
  | zero => rfl
  | succ fuel ih =>
    unfold Decimal.dropZeros
    split
    · next h =>
      have whole : digits = digits / 10 * 10 := by omega
      rw [ih, zpow_add₀ (by norm_num), zpow_one]
      conv_rhs => rw [whole]
      push_cast
      ring
    · rfl

theorem value_normalize (d : Decimal) : d.normalize.value = d.value :=
  value_dropZeros _ _ _

namespace Target

variable (t : Target)

/-- The points that read back as the number. -/
def Reads (q : ℚ) : Prop :=
  if t.closed then (t.low : ℚ) / t.den ≤ q ∧ q ≤ t.high / t.den
  else (t.low : ℚ) / t.den < q ∧ q < t.high / t.den

/-- The fraction that the number is. -/
def number : ℚ := t.value / t.den

variable {t}

theorem reads_of_inside {q : ℚ} (low : (t.low : ℚ) / t.den < q) (high : q < t.high / t.den) :
    t.Reads q := by
  unfold Reads
  split
  · exact ⟨low.le, high.le⟩
  · exact ⟨low, high⟩

theorem contains_iff (whole : 0 < t.den) {n d : Nat} (pos : 0 < d) :
    t.contains n d = true ↔ t.Reads (n / d) := by
  have den : (0 : ℚ) < t.den := by exact_mod_cast whole
  have div : (0 : ℚ) < d := by exact_mod_cast pos
  unfold contains Reads
  split
  · rw [decide_eq_true_iff, div_le_div_iff₀ den div, div_le_div_iff₀ div den]
    norm_cast
  · rw [decide_eq_true_iff, div_lt_div_iff₀ den div, div_lt_div_iff₀ div den]
    norm_cast

/-- The points of a grid that are tested: the last one up to the number and the next. -/
theorem onGrid?_cases {tie : Tie} {exponent : Int} {d : Decimal}
    (h : t.onGrid? tie exponent = some d) :
    d.exponent = exponent ∧
      t.contains (d.digits * Nat.pow 10 exponent.toNat) (Nat.pow 10 (-exponent).toNat) = true := by
  unfold onGrid? at h
  dsimp only at h
  split at h
  · next chosen =>
    cases h
    exact ⟨rfl, (Bool.and_eq_true_iff.1 chosen).1⟩
  · split at h
    · next inside =>
      cases h
      exact ⟨rfl, inside⟩
    · cases h

theorem onGrid?_reads (whole : 0 < t.den) {tie : Tie} {exponent : Int} {d : Decimal}
    (h : t.onGrid? tie exponent = some d) : t.Reads d.value := by
  obtain ⟨rfl, inside⟩ := onGrid?_cases h
  have reads := (contains_iff whole (pow_ten_pos _)).1 inside
  rwa [grid_point] at reads

theorem search_reads (whole : 0 < t.den) {tie : Tie} {fuel : Nat} {exponent : Int} {d : Decimal}
    (h : t.search tie fuel exponent = some d) : t.Reads d.value := by
  induction fuel generalizing exponent with
  | zero => cases h
  | succ fuel ih =>
    unfold search at h
    cases found : t.onGrid? tie exponent with
    | none =>
      rw [found] at h
      exact ih h
    | some d' =>
      rw [found] at h
      cases h
      exact onGrid?_reads whole found

/-- The last point of a grid up to the number. -/
def gridFloor (t : Target) (exponent : Int) : Nat :=
  t.value * Nat.pow 10 (-exponent).toNat / (t.den * Nat.pow 10 exponent.toNat)

/-- The number is between two points of a grid that are next to each other. -/
theorem number_between (whole : 0 < t.den) (exponent : Int) :
    t.gridFloor exponent * 10 ^ exponent ≤ t.number ∧
      t.number < (t.gridFloor exponent + 1 : Nat) * 10 ^ exponent := by
  have up := pow_ten_pos exponent.toNat
  have down := pow_ten_pos (-exponent).toNat
  rw [← grid_point, ← grid_point, gridFloor, number]
  generalize Nat.pow 10 exponent.toNat = a at up ⊢
  generalize Nat.pow 10 (-exponent).toNat = b at down ⊢
  have pos : 0 < t.den * a := Nat.mul_pos whole up
  have below := Nat.div_mul_le_self (t.value * b) (t.den * a)
  have above := Nat.lt_mul_div_succ (t.value * b) pos
  generalize t.value * b / (t.den * a) = floor at below above ⊢
  have den : (0 : ℚ) < t.den := by exact_mod_cast whole
  have div : (0 : ℚ) < b := by exact_mod_cast down
  rw [div_le_div_iff₀ div den, div_lt_div_iff₀ den div]
  norm_cast
  constructor
  · calc floor * a * t.den = floor * (t.den * a) := by ring
      _ ≤ t.value * b := below
  · calc t.value * b < t.den * a * (floor + 1) := above
      _ = (floor + 1) * a * t.den := by ring

/-- On a grid finer than the interval is wide, one of the two tested points reads back. -/
theorem onGrid?_found (whole : 0 < t.den) (low : (t.low : ℚ) / t.den < t.number)
    (high : t.number < t.high / t.den) {exponent : Int}
    (fine : (10 : ℚ) ^ exponent < t.high / t.den - t.low / t.den) (tie : Tie) :
    ∃ d, t.onGrid? tie exponent = some d := by
  obtain ⟨below, above⟩ := number_between whole exponent
  have tested : t.contains (t.gridFloor exponent * Nat.pow 10 exponent.toNat)
        (Nat.pow 10 (-exponent).toNat) = true ∨
      t.contains ((t.gridFloor exponent + 1) * Nat.pow 10 exponent.toNat)
        (Nat.pow 10 (-exponent).toNat) = true := by
    rw [contains_iff whole (pow_ten_pos _), contains_iff whole (pow_ten_pos _), grid_point,
      grid_point]
    by_contra neither
    obtain ⟨first, second⟩ := not_or.1 neither
    have outside : t.gridFloor exponent * 10 ^ exponent ≤ (t.low : ℚ) / t.den :=
      not_lt.1 fun inside => first (reads_of_inside inside (below.trans_lt high))
    have outside' : (t.high : ℚ) / t.den ≤ (t.gridFloor exponent + 1 : Nat) * 10 ^ exponent :=
      not_lt.1 fun inside => second (reads_of_inside (low.trans above) inside)
    push_cast at outside'
    linarith
  unfold onGrid?
  dsimp only
  change t.contains (t.gridFloor exponent * _) _ = true ∨ _ at tested
  split
  · exact ⟨_, rfl⟩
  · split
    · exact ⟨_, rfl⟩
    · next lone none =>
      rcases tested with inside | inside
      · exact absurd inside none
      · refine absurd ?_ lone
        simp only [gridFloor] at inside
        have none := Bool.eq_false_iff.2 none
        simp only [inside, none]
        rfl

theorem search_found {tie : Tie} {fuel k : Nat} {exponent : Int} (enough : k < fuel)
    (found : ∃ d, t.onGrid? tie (exponent - k) = some d) :
    ∃ d, t.search tie fuel exponent = some d := by
  induction fuel generalizing exponent k with
  | zero => exact absurd enough (Nat.not_lt_zero k)
  | succ fuel ih =>
    unfold search
    cases here : t.onGrid? tie exponent with
    | some d => exact ⟨d, rfl⟩
    | none =>
      cases k with
      | zero =>
        obtain ⟨d, found⟩ := found
        rw [Nat.cast_zero, sub_zero, here] at found
        cases found
      | succ k =>
        refine ih (k := k) (by omega) ?_
        rwa [show exponent - 1 - (k : Int) = exponent - (k + 1 : Nat) by push_cast; ring]

/-! ### The leading digit -/

theorem leadingBelowOne_le {num den : Nat} (pos : 0 < den) (fuel : Nat)
    (reach : (10 : ℚ) ^ (-(fuel : Int)) ≤ num / den) :
    (10 : ℚ) ^ leadingBelowOne num den fuel ≤ num / den := by
  have some : (0 : ℚ) < den := by exact_mod_cast pos
  induction fuel generalizing num with
  | zero => exact reach
  | succ fuel ih =>
    unfold leadingBelowOne
    split
    · next large =>
      rw [zpow_zero, le_div_iff₀ some, one_mul]
      exact_mod_cast large
    · have shifted : ((10 * num : Nat) : ℚ) / den = num / den * 10 := by
        rw [Nat.cast_mul, mul_div_assoc, mul_comm]
        norm_num
      have further : (10 : ℚ) ^ (-(fuel : Int)) ≤ (10 * num : Nat) / den := by
        rw [shifted, show -(fuel : Int) = -((fuel + 1 : Nat) : Int) + 1 by push_cast; ring,
          zpow_add₀ (by norm_num), zpow_one]
        gcongr
      rw [zpow_sub₀ (by norm_num), zpow_one, div_le_iff₀ (by norm_num), ← shifted]
      exact ih further

theorem pow_length_le {n : Nat} (pos : 0 < n) : 10 ^ ((Nat.toDigits 10 n).length - 1) ≤ n := by
  have some : 0 < (Nat.toDigits 10 n).length := Nat.length_toDigits_pos
  rcases Nat.eq_zero_or_pos ((Nat.toDigits 10 n).length - 1) with one | more
  · rw [one]
    exact pos
  · refine Nat.not_lt.1 fun below => ?_
    have short := (Nat.length_toDigits_le_iff (by norm_num) more).2 below
    omega

/-- The grid of the leading digit reaches up to the number. -/
theorem magnitude_le (whole : 0 < t.den) (reach : (10 : ℚ) ^ (-(lift : Int)) ≤ t.number) :
    (10 : ℚ) ^ t.magnitude ≤ t.number := by
  unfold magnitude
  split
  · next large =>
    have digits := pow_length_le (Nat.div_pos large whole)
    have below : ((t.value / t.den : Nat) : ℚ) ≤ t.number := Nat.cast_div_le
    have some : 0 < (Nat.toDigits 10 (t.value / t.den)).length := Nat.length_toDigits_pos
    rw [show ((Nat.toDigits 10 (t.value / t.den)).length : Int) - 1 =
      ((Nat.toDigits 10 (t.value / t.den)).length - 1 : Nat) by omega, zpow_natCast]
    exact le_trans (by exact_mod_cast digits) below
  · exact leadingBelowOne_le whole lift reach

/-- Seventeen digits are enough for an interval that is wide for its number. -/
theorem search_succeeds (whole : 0 < t.den) (low : (t.low : ℚ) / t.den < t.number)
    (high : t.number < t.high / t.den) (reach : (10 : ℚ) ^ (-(lift : Int)) ≤ t.number)
    (wide : t.number / 10 ^ 16 < t.high / t.den - t.low / t.den) (tie : Tie) :
    ∃ d, t.search tie mostDigits t.magnitude = some d := by
  refine search_found (k := 16) (by norm_num [mostDigits]) (onGrid?_found whole low high ?_ tie)
  calc (10 : ℚ) ^ (t.magnitude - (16 : Nat)) = 10 ^ t.magnitude / 10 ^ 16 := by
        rw [zpow_sub₀ (by norm_num)]
        rfl
    _ ≤ t.number / 10 ^ 16 := by
        have := magnitude_le whole reach
        gcongr
    _ < _ := wide

end Target

/-! ### The interval of a double -/

/-- How far the interval reaches down, in quarters of the unit of the last bit. -/
def gapBelow (mantissa : Nat) (exponent : Int) : Nat :=
  if mantissa = hiddenBit ∧ leastExponent < exponent then 1 else 2

section Interval

variable (mantissa : Nat) (exponent : Int)

theorem ofBinary_den_pos : 0 < (Target.ofBinary mantissa exponent).den :=
  Nat.mul_pos (by norm_num) (Nat.two_pow_pos _)

/-- Over the common denominator a multiple of a quarter. -/
theorem quarters (n : Nat) : ((n * Nat.pow 2 exponent.toNat : Nat) : ℚ) /
    (Target.ofBinary mantissa exponent).den = n * (2 ^ exponent / 4) := by
  have scale := pow_div_pow 2 (by norm_num) exponent
  rw [Nat.cast_ofNat] at scale
  rw [← scale]
  show _ / ((4 * Nat.pow 2 (-exponent).toNat : Nat) : ℚ) = _
  push_cast
  ring

theorem ofBinary_low : ((Target.ofBinary mantissa exponent).low : ℚ) /
    (Target.ofBinary mantissa exponent).den =
      (4 * mantissa - gapBelow mantissa exponent : Nat) * (2 ^ exponent / 4) :=
  quarters mantissa exponent _

theorem ofBinary_high : ((Target.ofBinary mantissa exponent).high : ℚ) /
    (Target.ofBinary mantissa exponent).den = (4 * mantissa + 2 : Nat) * (2 ^ exponent / 4) :=
  quarters mantissa exponent _

theorem ofBinary_number :
    (Target.ofBinary mantissa exponent).number = mantissa * 2 ^ exponent := by
  refine (quarters mantissa exponent _).trans ?_
  push_cast
  ring

end Interval

theorem gapBelow_cases (mantissa : Nat) (exponent : Int) :
    gapBelow mantissa exponent = 1 ∧ mantissa = 2 ^ 52 ∨
      gapBelow mantissa exponent = 2 ∧ (mantissa = 2 ^ 52 → exponent ≤ -1074) := by
  unfold gapBelow
  rw [hiddenBit_eq, leastExponent]
  split
  · next h => exact .inl ⟨rfl, h.1⟩
  · next h => exact .inr ⟨rfl, fun same => not_lt.1 fun above => h ⟨same, above⟩⟩

/-- The least double is above ten to the power of minus `lift`. -/
theorem lift_le : (10 : ℚ) ^ (-(Target.lift : Int)) ≤ 2 ^ (-1074 : Int) := by
  have powers : 2 ^ 1074 ≤ 10 ^ Target.lift := by decide +kernel
  rw [zpow_neg, zpow_neg, zpow_natCast]
  refine inv_anti₀ (by positivity) ?_
  exact_mod_cast powers

section Double

variable {mantissa : Nat} {exponent : Int} (canonical : Canonical mantissa exponent)

include canonical

/-- The shortest decimal reads back. -/
theorem shortest_reads (pos : 0 < mantissa) (tie : Tie) :
    (Target.ofBinary mantissa exponent).Reads (shortest tie mantissa exponent).value := by
  have unit : (0 : ℚ) < 2 ^ exponent / 4 := by positivity
  have gap := gapBelow_cases mantissa exponent
  have fits := canonical.fits
  have number : (Target.ofBinary mantissa exponent).number =
      (4 * mantissa : Nat) * (2 ^ exponent / 4) := by
    rw [ofBinary_number]
    push_cast
    ring
  have low : ((Target.ofBinary mantissa exponent).low : ℚ) /
      (Target.ofBinary mantissa exponent).den < (Target.ofBinary mantissa exponent).number := by
    rw [ofBinary_low, number, mul_lt_mul_iff_of_pos_right unit, Nat.cast_lt]
    omega
  have high : (Target.ofBinary mantissa exponent).number <
      (Target.ofBinary mantissa exponent).high / (Target.ofBinary mantissa exponent).den := by
    rw [ofBinary_high, number, mul_lt_mul_iff_of_pos_right unit, Nat.cast_lt]
    omega
  have reach : (10 : ℚ) ^ (-(Target.lift : Int)) ≤ (Target.ofBinary mantissa exponent).number := by
    rw [ofBinary_number]
    have least : (1 : ℚ) ≤ mantissa := by exact_mod_cast pos
    calc (10 : ℚ) ^ (-(Target.lift : Int)) ≤ 1 * 2 ^ (-1074 : Int) := by
          rw [one_mul]
          exact lift_le
      _ ≤ mantissa * 2 ^ exponent := by
          have := canonical.least
          gcongr
          norm_num
  have wide : (Target.ofBinary mantissa exponent).number / 10 ^ 16 <
      (Target.ofBinary mantissa exponent).high / (Target.ofBinary mantissa exponent).den -
        (Target.ofBinary mantissa exponent).low / (Target.ofBinary mantissa exponent).den := by
    rw [ofBinary_high, ofBinary_low, number, ← sub_mul, mul_div_right_comm,
      mul_lt_mul_iff_of_pos_right unit, div_lt_iff₀ (by norm_num)]
    have quarter : gapBelow mantissa exponent ≤ 4 * mantissa := by omega
    rw [Nat.cast_sub quarter]
    push_cast
    have bound : 4 * mantissa < (2 + gapBelow mantissa exponent) * 10 ^ 16 := by omega
    have bound' : (4 * mantissa : ℚ) < (2 + gapBelow mantissa exponent) * 10 ^ 16 := by
      exact_mod_cast bound
    linarith
  obtain ⟨d, found⟩ := Target.search_succeeds (ofBinary_den_pos _ _) low high reach wide tie
  have reads := Target.search_reads (ofBinary_den_pos _ _) found
  rw [shortest, found, Option.getD_some, value_normalize]
  exact reads

end Double

/-- The least point of the interval of a double, which may belong to it or not. -/
def lowest (mantissa : Nat) (exponent : Int) : ℚ :=
  (4 * mantissa - gapBelow mantissa exponent : Nat) * (2 ^ exponent / 4)

def highest (mantissa : Nat) (exponent : Int) : ℚ := (4 * mantissa + 2 : Nat) * (2 ^ exponent / 4)

theorem reads_iff {mantissa : Nat} {exponent : Int} {q : ℚ} :
    (Target.ofBinary mantissa exponent).Reads q ↔
      if mantissa % 2 = 0 then lowest mantissa exponent ≤ q ∧ q ≤ highest mantissa exponent
      else lowest mantissa exponent < q ∧ q < highest mantissa exponent := by
  have closed : (Target.ofBinary mantissa exponent).closed = true ↔ mantissa % 2 = 0 := beq_iff_eq
  unfold Target.Reads lowest highest
  rw [ofBinary_low, ofBinary_high]
  simp only [closed]

/-- A double reads back as itself. -/
theorem reads_self (mantissa : Nat) (exponent : Int) :
    (Target.ofBinary mantissa exponent).Reads (mantissa * 2 ^ exponent) := by
  have unit : (0 : ℚ) < 2 ^ exponent / 4 := by positivity
  have number : (mantissa * 2 ^ exponent : ℚ) = (4 * mantissa : Nat) * (2 ^ exponent / 4) := by
    push_cast
    ring
  have gap := gapBelow_cases mantissa exponent
  rw [reads_iff, lowest, highest, number]
  split
  · rw [mul_le_mul_iff_of_pos_right unit, mul_le_mul_iff_of_pos_right unit, Nat.cast_le,
      Nat.cast_le]
    omega
  · rw [mul_lt_mul_iff_of_pos_right unit, mul_lt_mul_iff_of_pos_right unit, Nat.cast_lt,
      Nat.cast_lt]
    omega

section Apart

variable {mantissa mantissa' : Nat} {exponent exponent' : Int}
  (canonical : Canonical mantissa exponent) (canonical' : Canonical mantissa' exponent')

include canonical canonical'

/-- Of two numbers the interval of the lesser one ends where that of the greater one begins at the
latest, and before that if both ends count. -/
theorem highest_le_lowest
    (less : exponent < exponent' ∨ exponent = exponent' ∧ mantissa < mantissa') :
    highest mantissa exponent ≤ lowest mantissa' exponent' ∧
      (mantissa % 2 = 0 → mantissa' % 2 = 0 →
        highest mantissa exponent < lowest mantissa' exponent') := by
  have gap := gapBelow_cases mantissa' exponent'
  have fits := canonical.fits
  have unit : (0 : ℚ) < 2 ^ exponent / 4 := by positivity
  unfold highest lowest
  rcases less with below | ⟨rfl, below⟩
  · have wide := canonical'.normal (lt_of_le_of_lt canonical.least below)
    have least := canonical.least
    obtain ⟨k, rfl⟩ : ∃ k : Nat, exponent' = exponent + (k + 1) :=
      ⟨(exponent' - exponent - 1).toNat, by omega⟩
    have scaled : (2 : ℚ) ^ (exponent + ((k : Int) + 1)) / 4 =
        (2 * 2 ^ k : Nat) * (2 ^ exponent / 4) := by
      rw [zpow_add₀ (by norm_num), zpow_add₀ (by norm_num), zpow_one, zpow_natCast]
      push_cast
      ring
    have power : 1 ≤ 2 ^ k := Nat.one_le_two_pow
    rw [scaled, ← mul_assoc, ← Nat.cast_mul, mul_le_mul_iff_of_pos_right unit,
      mul_lt_mul_iff_of_pos_right unit, Nat.cast_le, Nat.cast_lt]
    generalize gapBelow mantissa' (exponent + (k + 1)) = g at gap
    have twice : (4 * mantissa' - g) * 2 ≤ (4 * mantissa' - g) * (2 * 2 ^ k) :=
      Nat.mul_le_mul_left _ (by omega)
    omega
  · rw [mul_le_mul_iff_of_pos_right unit, mul_lt_mul_iff_of_pos_right unit, Nat.cast_le,
      Nat.cast_lt]
    omega

theorem reads_apart (less : exponent < exponent' ∨ exponent = exponent' ∧ mantissa < mantissa')
    {q : ℚ} (reads : (Target.ofBinary mantissa exponent).Reads q) :
    ¬(Target.ofBinary mantissa' exponent').Reads q := by
  intro reads'
  obtain ⟨touch, gap⟩ := highest_le_lowest canonical canonical' less
  rw [reads_iff] at reads reads'
  split at reads <;> split at reads'
  · next even even' => linarith [gap even even', reads.2, reads'.1]
  all_goals linarith [touch, reads.2, reads'.1]

/-- The intervals of two numbers have no point in common. -/
theorem reads_unique {q : ℚ} (reads : (Target.ofBinary mantissa exponent).Reads q)
    (reads' : (Target.ofBinary mantissa' exponent').Reads q) :
    mantissa = mantissa' ∧ exponent = exponent' := by
  rcases lt_trichotomy exponent exponent' with below | rfl | above
  · exact absurd reads' (reads_apart canonical canonical' (.inl below) reads)
  · rcases lt_trichotomy mantissa mantissa' with below | rfl | above
    · exact absurd reads' (reads_apart canonical canonical' (.inr ⟨rfl, below⟩) reads)
    · exact ⟨rfl, rfl⟩
    · exact absurd reads (reads_apart canonical' canonical (.inr ⟨rfl, above⟩) reads')
  · exact absurd reads (reads_apart canonical' canonical (.inl above) reads')

end Apart

end Lox.Number
