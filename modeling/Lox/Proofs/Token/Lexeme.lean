import Mathlib
import Lox.Token.Scan

/-!
# Lexemes

Which texts are tokens: the marks, strings between quotes, numbers with an optional fraction, and
words, of which seventeen are reserved. The scanner takes a lexeme that stands alone as a whole and
for what it is, and so it does one with a blank behind it (`Lexeme.munch_before`). So no text is a
lexeme of two kinds (`Lexeme.unique`).
-/

namespace Lox

/-- What a mark is written as. -/
def Symbol.spelling : Symbol → List Char
  | .leftParen => ['('] | .rightParen => [')'] | .leftBrace => ['{'] | .rightBrace => ['}']
  | .comma => [','] | .dot => ['.'] | .minus => ['-'] | .plus => ['+'] | .semicolon => [';']
  | .slash => ['/'] | .star => ['*'] | .bang => ['!'] | .bangEqual => ['!', '=']
  | .equal => ['='] | .equalEqual => ['=', '='] | .greater => ['>']
  | .greaterEqual => ['>', '='] | .less => ['<'] | .lessEqual => ['<', '=']

namespace Scan

/-! ### Characters -/

def Blank (c : Char) : Prop := c = ' ' ∨ c = '\t' ∨ c = '\r' ∨ c = '\n'

def Digit (c : Char) : Prop := '0' ≤ c ∧ c ≤ '9'

/-- What a word can start with. -/
def Letter (c : Char) : Prop := 'a' ≤ c ∧ c ≤ 'z' ∨ 'A' ≤ c ∧ c ≤ 'Z' ∨ c = '_'

instance (c : Char) : Decidable (Digit c) := inferInstanceAs (Decidable (_ ∧ _))

instance (c : Char) : Decidable (Letter c) := inferInstanceAs (Decidable (_ ∨ _))

theorem isBlank_iff {c : Char} : isBlank c = true ↔ Blank c := by
  simp [isBlank, Blank, or_assoc]

theorem isDigit_iff {c : Char} : c.isDigit = true ↔ Digit c := by
  simp [Char.isDigit, Digit, Char.le_def]

theorem isWordStart_iff {c : Char} : isWordStart c = true ↔ Letter c := by
  simp [isWordStart, Char.isAlpha, Char.isUpper, Char.isLower, Letter, Char.le_def, or_assoc,
    or_left_comm]

theorem isWordChar_iff {c : Char} : isWordChar c = true ↔ Letter c ∨ Digit c := by
  rw [← isWordStart_iff, ← isDigit_iff]
  simp [isWordChar, isWordStart, Char.isAlphanum, or_right_comm]

theorem Letter.not_digit {c : Char} (letter : Letter c) : ¬ Digit c := by
  intro ⟨_, high⟩
  change c.toNat ≤ 57 at high
  rcases letter with ⟨low, _⟩ | ⟨low, _⟩ | rfl
  · change 97 ≤ c.toNat at low
    omega
  · change 65 ≤ c.toNat at low
    omega
  · exact absurd high (by decide)

theorem Blank.not_word {c : Char} (blank : Blank c) : ¬ (Letter c ∨ Digit c) := by
  obtain rfl | rfl | rfl | rfl := blank
  all_goals decide

/-! ### The shapes of tokens -/

/-- `[0-9]+` -/
structure Digits (text : List Char) : Prop where
  some : text ≠ []
  all : ∀ c ∈ text, Digit c

/-- `[0-9]+(\.[0-9]+)?` -/
inductive Numeral : List Char → Prop
  | whole {digits} : Digits digits → Numeral digits
  | fraction {digits decimals} :
    Digits digits → Digits decimals → Numeral (digits ++ '.' :: decimals)

/-- `[A-Za-z_][A-Za-z0-9_]*` -/
inductive Word : List Char → Prop
  | mk {c cs} : Letter c → (∀ d ∈ cs, Letter d ∨ Digit d) → Word (c :: cs)

/-- The texts that are tokens. A string stands for what is between its quotes, a number for what
its text denotes as a numeral; a word that is no reserved one is a name. -/
inductive Lexeme : List Char → Kind → Prop
  | mark (s : Symbol) : Lexeme s.spelling (.symbol s)
  | string {body : List Char} : '"' ∉ body →
    Lexeme ('"' :: (body ++ ['"'])) (.string (String.ofList body))
  | number {text : List Char} {x : Float} : Numeral text → Number.ofNumeral? text = some x →
    Lexeme text (.number x)
  | reserved (k : Keyword) : Lexeme k.spelling.toList (.keyword k)
  | name {text : List Char} : Word text → (∀ k : Keyword, k.spelling.toList ≠ text) →
    Lexeme text .identifier

/-! ### Runs of characters -/

section Runs

variable {p : Char → Bool} {run rest : List Char}

/-- A run that is followed by nothing that goes on with it is taken as a whole. -/
theorem takeWhile_run (inside : ∀ c ∈ run, p c = true)
    (ends : ∀ c, rest.head? = some c → p c = false) : (run ++ rest).takeWhile p = run := by
  rw [List.takeWhile_append_of_pos inside]
  cases rest with
  | nil => simp
  | cons c rest => simp [ends c rfl]

theorem dropWhile_run (inside : ∀ c ∈ run, p c = true)
    (ends : ∀ c, rest.head? = some c → p c = false) : (run ++ rest).dropWhile p = rest := by
  rw [List.dropWhile_append_of_pos inside]
  cases rest with
  | nil => simp
  | cons c rest => simp [ends c rfl]

end Runs

theorem Digits.isDigit {text : List Char} (digits : Digits text) :
    ∀ c ∈ text, Char.isDigit c = true :=
  fun c mem => isDigit_iff.2 (digits.all c mem)

theorem Digits.of_takeWhile {c : Char} (digit : Digit c) (cs : List Char) :
    Digits ((c :: cs).takeWhile Char.isDigit) where
  some := by simp [isDigit_iff.2 digit]
  all d mem := isDigit_iff.1 (List.all_eq_true.1 List.all_takeWhile d mem)

/-! ### What a first character decides -/

section First

variable {c : Char} (cs : List Char)

theorem munch_blank (blank : Blank c) : munch c cs = ⟨.skip, [c], cs⟩ := by
  rcases blank with rfl | rfl | rfl | rfl <;> rfl

theorem munch_comment (cs : List Char) :
    munch '/' ('/' :: cs) = take ['/', '/'] (· != '\n') cs fun _ => .skip := rfl

theorem munch_quote : munch '"' cs = munchString cs := rfl

/-- No mark, quote or blank can be part of a word or number. -/
theorem loneSymbol?_word (inWord : Letter c ∨ Digit c) : loneSymbol? c = none := by
  unfold loneSymbol?
  split
  all_goals first | rfl | exact absurd inWord (by decide)

theorem extensibleSymbol?_word (inWord : Letter c ∨ Digit c) : extensibleSymbol? c = none := by
  unfold extensibleSymbol?
  split
  all_goals first | rfl | exact absurd inWord (by decide)

theorem word_ne (inWord : Letter c ∨ Digit c) {d : Char} (other : ¬ (Letter d ∨ Digit d)) :
    c ≠ d := fun same => other (same ▸ inWord)

theorem isBlank_word (inWord : Letter c ∨ Digit c) : isBlank c = false := by
  refine Bool.eq_false_iff.2 fun blank => ?_
  rcases isBlank_iff.1 blank with rfl | rfl | rfl | rfl
  all_goals exact absurd inWord (by decide)

theorem munch_word (inWord : Letter c ∨ Digit c) :
    munch c cs = if c.isDigit then munchNumber (c :: cs)
      else if isWordStart c then take [c] isWordChar cs fun word => .token (wordKind word)
      else ⟨.fault (.unexpectedCharacter c), [c], cs⟩ := by
  unfold munch
  rw [loneSymbol?_word inWord, extensibleSymbol?_word inWord]
  simp [word_ne inWord (d := '/') (by decide), word_ne inWord (d := '"') (by decide),
    isBlank_word inWord]

theorem munch_digit (digit : Digit c) : munch c cs = munchNumber (c :: cs) := by
  rw [munch_word cs (.inr digit), if_pos (isDigit_iff.2 digit)]

theorem munch_letter (letter : Letter c) :
    munch c cs = take [c] isWordChar cs fun word => .token (wordKind word) := by
  rw [munch_word cs (.inl letter), if_neg fun digit => letter.not_digit (isDigit_iff.1 digit),
    if_pos (isWordStart_iff.2 letter)]

end First

/-! ### Strings -/

theorem munchString_closed {body : List Char} (rest : List Char) (inside : '"' ∉ body) :
    munchString (body ++ '"' :: rest) =
      ⟨.token (.string (String.ofList body)), '"' :: (body ++ ['"']), rest⟩ := by
  have others : ∀ c ∈ body, (c != '"') = true := by
    intro c mem
    simpa using fun same : c = '"' => inside (same ▸ mem)
  have ends : ∀ c, ('"' :: rest).head? = some c → (c != '"') = false := by simp
  unfold munchString
  rw [takeWhile_run others ends, dropWhile_run others ends]

theorem munchString_open {body : List Char} (inside : '"' ∉ body) :
    munchString body = ⟨.fault .unterminatedString, '"' :: body, []⟩ := by
  have others : ∀ c ∈ body, (c != '"') = true := by
    intro c mem
    simpa using fun same : c = '"' => inside (same ▸ mem)
  unfold munchString
  rw [List.takeWhile_eq_self_iff.2 others, List.dropWhile_eq_nil_iff.2 others]

/-! ### Numbers -/

section Numbers

variable {digits decimals rest : List Char}

theorem munchNumber_whole (whole : Digits digits)
    (ends : ∀ c, rest.head? = some c → ¬ Digit c)
    (noFraction : ∀ d more, rest = '.' :: d :: more → ¬ Digit d) :
    munchNumber (digits ++ rest) =
      ⟨.token (.number (numberValue digits [])), digits, rest⟩ := by
  have ends : ∀ c, rest.head? = some c → Char.isDigit c = false := fun c first =>
    Bool.eq_false_iff.2 fun digit => ends c first (isDigit_iff.1 digit)
  unfold munchNumber
  rw [takeWhile_run whole.isDigit ends, dropWhile_run whole.isDigit ends]
  split
  · rw [if_neg fun digit => noFraction _ _ rfl (isDigit_iff.1 digit)]
  · rfl

theorem munchNumber_fraction (whole : Digits digits) (fraction : Digits decimals)
    (ends : ∀ c, rest.head? = some c → ¬ Digit c) :
    munchNumber (digits ++ '.' :: (decimals ++ rest)) =
      ⟨.token (.number (numberValue digits decimals)), digits ++ '.' :: decimals, rest⟩ := by
  have ends : ∀ c, rest.head? = some c → Char.isDigit c = false := fun c first =>
    Bool.eq_false_iff.2 fun digit => ends c first (isDigit_iff.1 digit)
  have point : ∀ c, ('.' :: (decimals ++ rest)).head? = some c → Char.isDigit c = false := by
    rintro _ ⟨⟩
    rfl
  unfold munchNumber
  rw [takeWhile_run whole.isDigit point, dropWhile_run whole.isDigit point]
  obtain ⟨d, more, rfl⟩ := List.exists_cons_of_ne_nil fraction.some
  show (if d.isDigit then
    (⟨.token (.number (numberValue digits ((d :: more ++ rest).takeWhile Char.isDigit))),
      digits ++ '.' :: (d :: more ++ rest).takeWhile Char.isDigit,
      (d :: more ++ rest).dropWhile Char.isDigit⟩ : Munch) else _) = _
  rw [if_pos (fraction.isDigit d (List.mem_cons_self ..)),
    takeWhile_run fraction.isDigit ends, dropWhile_run fraction.isDigit ends]

/-- A digit is no sign. -/
theorem splitSign_digits (whole : Digits digits) (rest : List Char) :
    Number.splitSign (digits ++ rest) = (false, digits ++ rest) := by
  obtain ⟨d, more, rfl⟩ := List.exists_cons_of_ne_nil whole.some
  have digit := whole.all d (List.mem_cons_self ..)
  unfold Number.splitSign
  split
  · next same => cases same; exact absurd digit (by decide)
  · next same => cases same; exact absurd digit (by decide)
  · rfl

/-- Digits alone denote what the scanner makes of them. -/
theorem ofNumeral?_whole (whole : Digits digits) :
    Number.ofNumeral? digits = some (numberValue digits []) := by
  have alone := splitSign_digits whole []
  rw [List.append_nil] at alone
  have some := whole.some
  unfold Number.ofNumeral? Number.magnitude?
  rw [alone]
  simp only [List.takeWhile_eq_self_iff.2 whole.isDigit, List.dropWhile_eq_nil_iff.2 whole.isDigit]
  simp [some, Number.exponent?, numberValue]

theorem ofNumeral?_fraction (whole : Digits digits) (fraction : Digits decimals) :
    Number.ofNumeral? (digits ++ '.' :: decimals) = some (numberValue digits decimals) := by
  have point : ∀ c, ('.' :: decimals).head? = some c → Char.isDigit c = false := by
    rintro _ ⟨⟩
    rfl
  have some := whole.some
  unfold Number.ofNumeral? Number.magnitude?
  rw [splitSign_digits whole]
  simp only [takeWhile_run whole.isDigit point, dropWhile_run whole.isDigit point,
    List.takeWhile_eq_self_iff.2 fraction.isDigit, List.dropWhile_eq_nil_iff.2 fraction.isDigit]
  simp [some, Number.exponent?, numberValue]

end Numbers

/-! ### Words -/

theorem Word.of_takeWhile {c : Char} (letter : Letter c) (cs : List Char) :
    Word (c :: cs.takeWhile isWordChar) :=
  .mk letter fun d mem => isWordChar_iff.1 (List.all_eq_true.1 List.all_takeWhile d mem)

theorem Keyword.word (k : Keyword) : Word k.spelling.toList := by
  cases k <;> exact .mk (by decide) fun d mem =>
    isWordChar_iff.1 (List.all_eq_true.1 (by decide) d mem)

/-- A word is a token of the kind that the scanner gives it. -/
theorem Word.lexeme {text : List Char} (word : Word text) : Lexeme text (wordKind text) := by
  unfold wordKind Keyword.ofSpelling?
  cases found : Keyword.all.find? (·.spelling == String.ofList text) with
  | some k =>
    have same : k.spelling = String.ofList text := by simpa using List.find?_some found
    have spelled : text = k.spelling.toList := by rw [same, String.toList_ofList]
    exact spelled ▸ .reserved k
  | none =>
    refine .name word fun k same => ?_
    have other := List.find?_eq_none.1 found k k.mem_all
    exact other (by simp [← same])

/-- What a word stands for is decided by its text. -/
theorem wordKind_reserved (k : Keyword) : wordKind k.spelling.toList = .keyword k := by
  unfold wordKind
  rw [String.ofList_toList, Keyword.ofSpelling?_spelling]

theorem wordKind_name {text : List Char} (free : ∀ k : Keyword, k.spelling.toList ≠ text) :
    wordKind text = .identifier := by
  unfold wordKind Keyword.ofSpelling?
  rw [List.find?_eq_none.2 fun k _ => ?_]
  intro same
  have spelled : k.spelling = String.ofList text := by simpa using same
  exact free k (by rw [spelled, String.toList_ofList])

/-! ### Lexemes as the scanner takes them -/

/-- The four sorts of lexeme. -/
theorem Lexeme.sorts {text : List Char} {kind : Kind} (lexeme : Lexeme text kind) :
    (∃ s : Symbol, text = s.spelling ∧ kind = .symbol s) ∨
      (∃ body, '"' ∉ body ∧ text = '"' :: (body ++ ['"']) ∧
        kind = .string (String.ofList body)) ∨
      (∃ x, Numeral text ∧ Number.ofNumeral? text = some x ∧ kind = .number x) ∨
      (Word text ∧ kind = wordKind text) := by
  cases lexeme with
  | mark s => exact .inl ⟨s, rfl, rfl⟩
  | string inside => exact .inr (.inl ⟨_, inside, rfl, rfl⟩)
  | number numeral denotes => exact .inr (.inr (.inl ⟨_, numeral, denotes, rfl⟩))
  | reserved k => exact .inr (.inr (.inr ⟨Keyword.word k, (wordKind_reserved k).symm⟩))
  | name word free => exact .inr (.inr (.inr ⟨word, (wordKind_name free).symm⟩))

theorem Numeral.starts {text : List Char} (numeral : Numeral text) :
    ∃ d ds, text = d :: ds ∧ Digit d := by
  cases numeral with
  | whole digits =>
    obtain ⟨d, ds, rfl⟩ := List.exists_cons_of_ne_nil digits.some
    exact ⟨d, ds, rfl, digits.all d (List.mem_cons_self ..)⟩
  | fraction digits decimals =>
    obtain ⟨d, ds, rfl⟩ := List.exists_cons_of_ne_nil digits.some
    exact ⟨d, _, rfl, digits.all d (List.mem_cons_self ..)⟩

section Before

variable {rest : List Char} (parted : ∀ c, rest.head? = some c → Blank c)

include parted

/-- No mark goes on with a blank. -/
theorem munch_mark_before (s : Symbol) :
    ∃ c cs, s.spelling = c :: cs ∧ munch c (cs ++ rest) = ⟨.token (.symbol s), s.spelling, rest⟩ := by
  cases rest with
  | nil => cases s <;> exact ⟨_, _, rfl, rfl⟩
  | cons d rest =>
    obtain rfl | rfl | rfl | rfl := parted d rfl
    all_goals cases s <;> exact ⟨_, _, rfl, rfl⟩

theorem munchNumber_before {text : List Char} {x : Float} (numeral : Numeral text)
    (denotes : Number.ofNumeral? text = some x) :
    munchNumber (text ++ rest) = ⟨.token (.number x), text, rest⟩ := by
  have ends : ∀ c, rest.head? = some c → ¬ Digit c := fun c first digit =>
    (parted c first).not_word (.inr digit)
  cases numeral with
  | whole digits =>
    obtain rfl := Option.some.inj ((ofNumeral?_whole digits).symm.trans denotes)
    refine munchNumber_whole digits ends ?_
    rintro d more rfl
    exact absurd (parted '.' rfl) (by simp [Blank])
  | fraction digits decimals =>
    obtain rfl := Option.some.inj ((ofNumeral?_fraction digits decimals).symm.trans denotes)
    rw [List.append_assoc, List.cons_append]
    exact munchNumber_fraction digits decimals ends

/-- A lexeme with a blank or nothing behind it is taken as a whole and for what it is. -/
theorem Lexeme.munch_before {text : List Char} {kind : Kind} (lexeme : Lexeme text kind) :
    ∃ c cs, text = c :: cs ∧ munch c (cs ++ rest) = ⟨.token kind, text, rest⟩ := by
  obtain ⟨s, rfl, rfl⟩ | ⟨body, inside, rfl, rfl⟩ | ⟨x, numeral, denotes, rfl⟩ | ⟨word, rfl⟩ :=
    lexeme.sorts
  · exact munch_mark_before parted s
  · refine ⟨_, _, rfl, ?_⟩
    rw [List.append_assoc]
    exact munchString_closed rest inside
  · obtain ⟨d, ds, rfl, digit⟩ := numeral.starts
    exact ⟨d, ds, rfl, (munch_digit _ digit).trans (munchNumber_before parted numeral denotes)⟩
  · cases word with
    | @mk c cs letter inside =>
      have all : ∀ d ∈ cs, isWordChar d = true := fun d mem => isWordChar_iff.2 (inside d mem)
      have ends : ∀ d, rest.head? = some d → isWordChar d = false := fun d first =>
        Bool.eq_false_iff.2 fun inWord => (parted d first).not_word (isWordChar_iff.1 inWord)
      refine ⟨c, cs, rfl, (munch_letter _ letter).trans ?_⟩
      unfold take
      rw [takeWhile_run all ends, dropWhile_run all ends]
      rfl

end Before

/-- A lexeme that stands alone is taken as a whole and for what it is. -/
theorem Lexeme.munch_alone {text : List Char} {kind : Kind} (lexeme : Lexeme text kind) :
    ∃ c cs, text = c :: cs ∧ munch c cs = ⟨.token kind, text, []⟩ := by
  have parted : ∀ c, ([] : List Char).head? = some c → Blank c := nofun
  obtain ⟨c, cs, spelled, taken⟩ := lexeme.munch_before parted
  rw [List.append_nil] at taken
  exact ⟨c, cs, spelled, taken⟩

/-- No text is a lexeme of two kinds. -/
theorem Lexeme.unique {text : List Char} {kind kind' : Kind} (lexeme : Lexeme text kind)
    (other : Lexeme text kind') : kind = kind' := by
  obtain ⟨c, cs, rfl, taken⟩ := lexeme.munch_alone
  obtain ⟨c', cs', same, taken'⟩ := other.munch_alone
  cases same
  have piece := congrArg Munch.piece (taken.symm.trans taken')
  cases piece
  rfl

end Scan

end Lox
