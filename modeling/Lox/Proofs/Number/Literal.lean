import Lox.Number.Numeral
import Lox.Proofs.Number.Shortest
import Lox.Proofs.Number.Text
import Lox.Proofs.Token.Lexeme

/-!
# Literals of numbers

The text that a tree shows for a finite number tells which number it is (`literal_injective`): what
is written lies in the interval of the number.
-/

namespace Lox.Number

/-! ### What a text denotes -/

theorem digitsValue_toDigits (n : Nat) : digitsValue (Nat.toDigits 10 n) = n :=
  Nat.ofDigitChars_ten_toDigits

theorem digitsValue_zeros (places : Nat) (cs : List Char) :
    digitsValue (List.replicate places '0' ++ cs) = digitsValue cs := by
  induction places with
  | zero => rfl
  | succ places ih => exact ih

/-- The decimal that is written in positional notation. -/
def written (cs : List Char) : Decimal :=
  .ofParts (cs.takeWhile Char.isDigit) ((cs.dropWhile Char.isDigit).drop 1) 0

theorem toDigits_isDigit (n : Nat) : ∀ c ∈ Nat.toDigits 10 n, c.isDigit = true :=
  fun _ mem => Nat.isDigit_of_mem_toDigits (by norm_num) (by norm_num) mem

theorem paddedDigits_isDigit (digits places : Nat) :
    ∀ c ∈ paddedDigits digits places, c.isDigit = true := by
  intro c mem
  rcases List.mem_append.1 mem with zero | digit
  · rw [List.eq_of_mem_replicate zero]
    rfl
  · exact toDigits_isDigit _ c digit

theorem paddedDigits_length (digits places : Nat) :
    places + 1 ≤ (paddedDigits digits places).length := by
  rw [paddedDigits, List.length_append, List.length_replicate]
  omega

/-- Both shapes of positional notation: digits alone, or with a point among them. -/
theorem positional_cases (d : Decimal) :
    (∃ k : Nat, d.exponent = k ∧
      d.positional.toList = Nat.toDigits 10 d.digits ++ List.replicate k '0') ∨
    (∃ whole fraction : List Char, d.exponent = -(fraction.length : Int) ∧ whole ≠ [] ∧
      (∀ c ∈ whole, c.isDigit = true) ∧ (∀ c ∈ fraction, c.isDigit = true) ∧
      digitsValue (whole ++ fraction) = d.digits ∧
      d.positional.toList = whole ++ '.' :: fraction) := by
  obtain ⟨digits, exponent⟩ := d
  rcases Int.lt_or_le exponent 0 with below | above
  · right
    obtain ⟨places, rfl⟩ : ∃ places : Nat, exponent = -(places : Int) :=
      ⟨(-exponent).toNat, by omega⟩
    have pos : 0 < places := by omega
    have length := paddedDigits_length digits places
    have digit := paddedDigits_isDigit digits places
    refine ⟨_, _, ?_, ?_, ?_, ?_, ?_, positional_toList digits pos⟩
    · rw [List.length_drop]
      dsimp only
      omega
    · intro empty
      have none := congrArg List.length empty
      rw [List.length_take, List.length_nil] at none
      omega
    · exact fun c mem => digit c (List.mem_of_mem_take mem)
    · exact fun c mem => digit c (List.mem_of_mem_drop mem)
    · rw [List.take_append_drop, paddedDigits, digitsValue_zeros, digitsValue_toDigits]
  · left
    obtain ⟨k, rfl⟩ := Int.eq_ofNat_of_zero_le above
    refine ⟨k, rfl, ?_⟩
    rw [Decimal.positional, if_pos above, String.toList_append, Nat.toList_repr, toList_zeros]
    rfl

theorem written_positional (d : Decimal) : (written d.positional.toList).value = d.value := by
  unfold written Decimal.ofParts Decimal.value
  rcases positional_cases d with ⟨k, exponent, text⟩ | ⟨whole, fraction, exponent, -, first, second,
    digits, text⟩
  · have all : ∀ c ∈ Nat.toDigits 10 d.digits ++ List.replicate k '0', c.isDigit = true := by
      intro c mem
      rcases List.mem_append.1 mem with digit | zero
      · exact toDigits_isDigit _ c digit
      · rw [List.eq_of_mem_replicate zero]
        rfl
    have value : digitsValue (Nat.toDigits 10 d.digits ++ List.replicate k '0') =
        10 ^ k * d.digits := by
      show Nat.ofDigitChars 10 _ 0 = _
      rw [Nat.ofDigitChars_append, Nat.ofDigitChars_replicate_zero, Nat.ofDigitChars_ten_toDigits]
    rw [text, List.takeWhile_eq_self_iff.2 all, List.dropWhile_eq_nil_iff.2 all, List.drop_nil,
      List.append_nil, value, exponent]
    simp [mul_comm]
  · have ends : ∀ c, ('.' :: fraction).head? = some c → c.isDigit = false := by simp
    rw [text, Scan.takeWhile_run first ends, Scan.dropWhile_run first ends, List.drop_one,
      List.tail_cons, digits, exponent, Int.zero_sub]

/-- A text in positional notation starts with a digit, and has digits and a point at most. -/
theorem positional_chars (d : Decimal) :
    (∃ c cs, d.positional.toList = c :: cs ∧ c.isDigit = true) ∧
      ∀ c ∈ d.positional.toList, c.isDigit = true ∨ c = '.' := by
  rcases positional_cases d with ⟨k, -, text⟩ | ⟨whole, fraction, -, some, first, second, -, text⟩
  · rw [text]
    refine ⟨?_, fun c mem => ?_⟩
    · have digit := toDigits_isDigit d.digits
      cases digits : Nat.toDigits 10 d.digits with
      | nil => exact absurd digits Nat.toDigits_ne_nil
      | cons c cs => exact ⟨c, _, rfl, digit c (by rw [digits]; exact List.mem_cons_self)⟩
    · rcases List.mem_append.1 mem with digit | zero
      · exact .inl (toDigits_isDigit _ c digit)
      · rw [List.eq_of_mem_replicate zero]
        exact .inl rfl
  · rw [text]
    refine ⟨?_, fun c mem => ?_⟩
    · cases whole with
      | nil => exact absurd rfl some
      | cons c cs => exact ⟨c, _, rfl, first c List.mem_cons_self⟩
    · rcases List.mem_append.1 mem with digit | point
      · exact .inl (first c digit)
      · rcases List.mem_cons.1 point with rfl | digit
        · exact .inr rfl
        · exact .inl (second c digit)

/-! ### Literals -/

/-- The sign and a decimal that reads back as the number. -/
theorem literal_eq {x : Float} {negative : Bool} {mantissa : Nat} {exponent : Int}
    (fields : decode x = .finite negative mantissa exponent) :
    ∃ d : Decimal, literal x = sign negative ++ d.positional ∧
      (Target.ofBinary mantissa exponent).Reads d.value := by
  have canonical := decode_canonical fields
  have whole : isWhole x = (Binary.natural? mantissa exponent).isSome := by
    rw [isWhole, toInt?, fields, Binary.whole?, Option.isSome_map, Option.isSome_map]
  cases known : Binary.natural? mantissa exponent with
  | some n =>
    have test : isWhole x = true := by
      rw [whole, known]
      rfl
    have num : mantissa * Nat.pow 2 exponent.toNat * Nat.pow 10 1 =
        n * 10 * Nat.pow 2 (-exponent).toNat := by
      rw [natural?_fraction known, Nat.pow_eq, Nat.pow_eq]
      ring
    have scale : 0 < Nat.pow 2 (-exponent).toNat := Nat.two_pow_pos _
    refine ⟨⟨n * 10, -1⟩, ?_, ?_⟩
    · rw [literal, if_pos test, fixed, fields]
      simp only [num]
      rw [nearest_exact _ scale]
      rfl
    · have value : (Decimal.mk (n * 10) (-1)).value = mantissa * 2 ^ exponent := by
        rw [natural?_eq_some.1 known, Decimal.value, Nat.cast_mul, mul_assoc]
        norm_num
      rw [value]
      exact reads_self mantissa exponent
  | none =>
    have test : ¬isWhole x = true := by
      rw [whole, known]
      exact Bool.false_ne_true
    have pos : 0 < mantissa := by
      refine Nat.pos_of_ne_zero fun zero => ?_
      have whole := @natural?_eq_some mantissa exponent 0 |>.2
        (by rw [zero, Nat.cast_zero, zero_mul])
      rw [known] at whole
      cases whole
    refine ⟨shortest .up mantissa exponent, ?_, shortest_reads canonical pos .up⟩
    rw [literal, if_neg test, plain, fields]
    exact if_neg (Nat.ne_of_gt pos)

/-- The first character tells the sign. -/
theorem sign_append_inj {negative negative' : Bool} {d d' : Decimal}
    (same : sign negative ++ d.positional = sign negative' ++ d'.positional) :
    negative = negative' ∧ d.positional = d'.positional := by
  obtain ⟨c, cs, first, digit⟩ := (positional_chars d).1
  obtain ⟨c', cs', first', digit'⟩ := (positional_chars d').1
  have texts := congrArg String.toList same
  rw [String.toList_append, String.toList_append, first, first'] at texts
  cases negative <;> cases negative'
  · exact ⟨rfl, by simpa [sign] using same⟩
  · obtain ⟨rfl, -⟩ := List.cons.inj texts
    cases digit
  · obtain ⟨rfl, -⟩ := List.cons.inj texts
    cases digit'
  · exact ⟨rfl, (String.append_right_inj _).1 same⟩

/-- No two finite numbers are shown alike. -/
theorem literal_injective {x y : Float} {negative negative' : Bool} {mantissa mantissa' : Nat}
    {exponent exponent' : Int} (fields : decode x = .finite negative mantissa exponent)
    (fields' : decode y = .finite negative' mantissa' exponent') (same : literal x = literal y) :
    x = y := by
  obtain ⟨d, text, reads⟩ := literal_eq fields
  obtain ⟨d', text', reads'⟩ := literal_eq fields'
  rw [text, text'] at same
  obtain ⟨rfl, positional⟩ := sign_append_inj same
  have value : d.value = d'.value := by
    rw [← written_positional, positional, written_positional]
  obtain ⟨rfl, rfl⟩ :=
    reads_unique (decode_canonical fields) (decode_canonical fields') reads (value ▸ reads')
  exact decode_injective (fields.trans fields'.symm)

end Lox.Number
