import Lox.Proofs.Token.Lexeme
import Lox.Proofs.Token.Seam

/-!
# The longest lexeme

What a text starts with is fixed by rules that know lexemes and their lengths but no scanner
(`First`): a blank and a comment are skipped, of the lexemes the longest is the token, and where
there is none there is an error. `munch` follows these rules and no other way of reading does
(`first_iff`), so scanning is reading by them from end to end (`scan_eq_iff`).
-/

namespace Lox.Scan

/-! ### The rules -/

/-- Of the lexemes that `cs` starts with, `text` is the longest. -/
structure Longest (cs text : List Char) (kind : Kind) : Prop where
  lexeme : Lexeme text kind
  starts : text <+: cs
  longest : ∀ {text' kind'}, Lexeme text' kind' → text' <+: cs → text'.length ≤ text.length

/-- No lexeme starts here. -/
def Bare (cs : List Char) : Prop := ∀ {text kind}, Lexeme text kind → ¬ text <+: cs

/-- What a text starts with. A comment goes up to a newline and not further, a string that is not
closed up to the end; any other fault is a single character. -/
inductive First (cs : List Char) : Munch → Prop
  | blank {c rest} : cs = c :: rest → Blank c → First cs ⟨.skip, [c], rest⟩
  | comment {body rest} : cs = '/' :: '/' :: (body ++ rest) → '\n' ∉ body →
    (∀ c, rest.head? = some c → c = '\n') → First cs ⟨.skip, '/' :: '/' :: body, rest⟩
  | token {text rest kind} : cs = text ++ rest → ¬ ['/', '/'] <+: cs → Longest cs text kind →
    First cs ⟨.token kind, text, rest⟩
  | unterminated {body} : cs = '"' :: body → Bare cs →
    First cs ⟨.fault .unterminatedString, cs, []⟩
  | unexpected {c rest} : cs = c :: rest → ¬ Blank c → c ≠ '"' → Bare cs →
    First cs ⟨.fault (.unexpectedCharacter c), [c], rest⟩

/-- What a text that starts on `line` reads as, first thing after first thing. -/
inductive Lexed : Nat → List Char → List Scanned → Prop
  | done {line} : Lexed line [] [.token ⟨.eof, "", line⟩]
  | more {line cs m found} : First cs m → Lexed (line + m.text.count '\n') m.rest found →
    Lexed line cs (scanned (line + m.text.count '\n') m.text m.piece ++ found)

/-! ### A lexeme is never cut short -/

theorem length_le_takeWhile {p : Char → Bool} {run cs : List Char} (inside : ∀ c ∈ run, p c = true)
    (starts : run <+: cs) : run.length ≤ (cs.takeWhile p).length := by
  obtain ⟨rest, rfl⟩ := starts
  rw [List.takeWhile_append_of_pos inside, List.length_append]
  exact Nat.le_add_right _ _

/-- The scanner takes at least the numeral that a text starts with. -/
theorem Numeral.length_le {text : List Char} (numeral : Numeral text) (rest : List Char) :
    text.length ≤ (munchNumber (text ++ rest)).text.length := by
  cases numeral with
  | whole digits =>
    have taken := length_le_takeWhile digits.isDigit (List.prefix_append text rest)
    unfold munchNumber
    split
    · split
      · exact taken.trans (by simp)
      · exact taken
    · exact taken
  | @fraction digits decimals whole fraction =>
    have ends : ∀ c, ((decimals ++ rest).dropWhile Char.isDigit).head? = some c → ¬ Digit c := by
      intro c first digit
      have stops := List.head?_dropWhile_not Char.isDigit (decimals ++ rest)
      rw [first] at stops
      simp [isDigit_iff.2 digit] at stops
    have more : Digits ((decimals ++ rest).takeWhile Char.isDigit) := by
      obtain ⟨d, ds, rfl⟩ := List.exists_cons_of_ne_nil fraction.some
      exact Digits.of_takeWhile (fraction.all d (List.mem_cons_self ..)) (ds ++ rest)
    have taken := munchNumber_fraction whole more ends
    rw [List.takeWhile_append_dropWhile] at taken
    rw [List.append_assoc, List.cons_append, taken, List.length_append, List.length_append,
      List.length_cons, List.length_cons]
    have least := length_le_takeWhile fraction.isDigit (List.prefix_append decimals rest)
    omega

theorem munch_extensible {c : Char} {marks : Symbol × Symbol}
    (known : extensibleSymbol? c = some marks) (cs : List Char) :
    ∃ kind, (munch c cs).piece = .token kind := by
  unfold munch
  rw [known]
  split
  · exact ⟨_, rfl⟩
  · split <;> exact ⟨_, rfl⟩
  · next none => cases none

theorem munch_slash {cs : List Char} (noComment : ¬ ['/', '/'] <+: '/' :: cs) :
    munch '/' cs = ⟨.token (.symbol .slash), ['/'], cs⟩ := by
  unfold munch
  split
  · next lone => cases lone
  · next extensible => cases extensible
  · rw [if_pos (beq_self_eq_true _)]
    split
    · next rest => exact absurd ⟨rest, rfl⟩ noComment
    · rfl

theorem munch_mark (s : Symbol) {c : Char} {cs rest : List Char} (text : c :: cs = s.spelling)
    (noComment : ¬ ['/', '/'] <+: c :: (cs ++ rest)) :
    (∃ kind, (munch c (cs ++ rest)).piece = .token kind) ∧
      (c :: cs).length ≤ (munch c (cs ++ rest)).text.length := by
  cases s with
  | slash =>
    cases text
    have taken : munch '/' rest = _ := munch_slash noComment
    exact ⟨⟨_, congrArg Munch.piece taken⟩, List.length_pos_iff.2 (munch_text_ne_nil '/' rest)⟩
  | bang | equal | greater | less =>
    cases text
    exact ⟨munch_extensible rfl _, List.length_pos_iff.2 (munch_text_ne_nil _ rest)⟩
  | _ =>
    cases text
    exact ⟨⟨_, rfl⟩, Nat.le_refl _⟩

/-- Where a lexeme starts, and no comment, the scanner takes a token at least as long. -/
theorem Lexeme.munch_covers {c : Char} {cs rest : List Char} {kind : Kind}
    (lexeme : Lexeme (c :: cs) kind) (noComment : ¬ ['/', '/'] <+: c :: (cs ++ rest)) :
    (∃ kind', (munch c (cs ++ rest)).piece = .token kind') ∧
      (c :: cs).length ≤ (munch c (cs ++ rest)).text.length := by
  obtain ⟨s, text, -⟩ | ⟨body, inside, text, -⟩ | ⟨x, numeral, -, -⟩ | ⟨word, -⟩ := lexeme.sorts
  · exact munch_mark s text noComment
  · cases text
    rw [List.append_assoc, munch_quote, List.singleton_append, munchString_closed rest inside]
    exact ⟨⟨_, rfl⟩, Nat.le_refl _⟩
  · obtain ⟨d, ds, same, digit⟩ := numeral.starts
    cases same
    rw [munch_digit _ digit]
    exact ⟨(munchNumber_piece _).elim fun _ number => ⟨_, number⟩, numeral.length_le rest⟩
  · cases word with
    | mk letter inside =>
      rw [munch_letter _ letter]
      refine ⟨⟨_, rfl⟩, Nat.succ_le_succ (length_le_takeWhile ?_ (List.prefix_append cs rest))⟩
      exact fun d mem => isWordChar_iff.2 (inside d mem)

/-- The same for a text of which a lexeme is the beginning. -/
theorem Lexeme.covered {c : Char} {cs text : List Char} {kind : Kind} (lexeme : Lexeme text kind)
    (starts : text <+: c :: cs) (noComment : ¬ ['/', '/'] <+: c :: cs) :
    (∃ kind', (munch c cs).piece = .token kind') ∧ text.length ≤ (munch c cs).text.length := by
  obtain ⟨rest, whole⟩ := starts
  obtain ⟨d, ds, rfl, -⟩ := lexeme.munch_alone
  cases whole
  exact lexeme.munch_covers noComment

/-! ### What the scanner takes -/

theorem lone_spelling {c : Char} {s : Symbol} (known : loneSymbol? c = some s) :
    s.spelling = [c] := by
  unfold loneSymbol? at known
  split at known <;> cases known <;> rfl

theorem extensible_spelling {c : Char} {alone extended : Symbol}
    (known : extensibleSymbol? c = some (alone, extended)) :
    alone.spelling = [c] ∧ extended.spelling = [c, '='] := by
  unfold extensibleSymbol? at known
  split at known <;> cases known <;> exact ⟨rfl, rfl⟩

theorem munchNumber_lexeme {c : Char} (cs : List Char) (digit : Digit c) :
    ∃ kind, (munchNumber (c :: cs)).piece = .token kind ∧
      Lexeme (munchNumber (c :: cs)).text kind := by
  have whole := Digits.of_takeWhile digit cs
  unfold munchNumber
  split
  · next _ d rest _ =>
    split
    · next isDigit =>
      have fraction := Digits.of_takeWhile (isDigit_iff.1 isDigit) rest
      exact ⟨_, rfl, .number (.fraction whole fraction) (ofNumeral?_fraction whole fraction)⟩
    · exact ⟨_, rfl, .number (.whole whole) (ofNumeral?_whole whole)⟩
  · exact ⟨_, rfl, .number (.whole whole) (ofNumeral?_whole whole)⟩

theorem munchString_sorts (cs : List Char) :
    (∃ kind, (munchString cs).piece = .token kind ∧ Lexeme (munchString cs).text kind) ∨
      munchString cs = ⟨.fault .unterminatedString, '"' :: cs, []⟩ := by
  by_cases closed : '"' ∈ cs
  · obtain ⟨body, rest, rfl, inside⟩ := List.eq_append_cons_of_mem closed
    rw [munchString_closed rest inside]
    exact .inl ⟨_, rfl, .string inside⟩
  · exact .inr (munchString_open closed)

/-- What `munch` can take: a blank, a comment, a lexeme, an open string or a stray character. -/
theorem munch_sorts (c : Char) (cs : List Char) :
    (Blank c ∧ munch c cs = ⟨.skip, [c], cs⟩) ∨
      (∃ rest, c = '/' ∧ cs = '/' :: rest) ∨
      (∃ kind, (munch c cs).piece = .token kind ∧ Lexeme (munch c cs).text kind) ∨
      (c = '"' ∧ munch c cs = ⟨.fault .unterminatedString, c :: cs, []⟩) ∨
      (¬ Blank c ∧ c ≠ '"' ∧ munch c cs = ⟨.fault (.unexpectedCharacter c), [c], cs⟩) := by
  unfold munch
  split
  · next lone =>
    exact .inr (.inr (.inl ⟨_, rfl, lone_spelling lone ▸ .mark _⟩))
  · next extensible =>
    obtain ⟨single, double⟩ := extensible_spelling extensible
    split
    · exact .inr (.inr (.inl ⟨_, rfl, double ▸ .mark _⟩))
    · exact .inr (.inr (.inl ⟨_, rfl, single ▸ .mark _⟩))
  · split
    · next slash =>
      split
      · exact .inr (.inl ⟨_, by simpa using slash, rfl⟩)
      · exact .inr (.inr (.inl ⟨_, rfl, .mark .slash⟩))
    · split
      · next quote =>
        obtain rfl : c = '"' := by simpa using quote
        exact (munchString_sorts cs).elim (fun closed => .inr (.inr (.inl closed)))
          fun unclosed => .inr (.inr (.inr (.inl ⟨rfl, unclosed⟩)))
      · next noQuote =>
        split
        · next blank => exact .inl ⟨isBlank_iff.1 blank, rfl⟩
        · next noBlank =>
          split
          · next digit =>
            exact .inr (.inr (.inl (munchNumber_lexeme cs (isDigit_iff.1 digit))))
          · split
            · next letter =>
              exact .inr (.inr (.inl ⟨_, rfl,
                (Word.of_takeWhile (isWordStart_iff.1 letter) cs).lexeme⟩))
            · exact .inr (.inr (.inr (.inr
                ⟨fun blank => noBlank (isBlank_iff.2 blank), by simpa using noQuote, rfl⟩)))

/-! ### The rules and the scanner agree -/

theorem comment_piece {c : Char} {cs : List Char} (comment : ['/', '/'] <+: c :: cs) :
    (munch c cs).piece = .skip := by
  obtain ⟨rest, whole⟩ := comment
  cases whole
  rfl

/-- Where the scanner takes a token, it takes the longest lexeme. -/
theorem longest_munch {c : Char} {cs : List Char} {kind : Kind}
    (token : (munch c cs).piece = .token kind) (lexeme : Lexeme (munch c cs).text kind) :
    ¬ ['/', '/'] <+: c :: cs ∧ Longest (c :: cs) (munch c cs).text kind := by
  have noComment : ¬ ['/', '/'] <+: c :: cs := fun comment => by
    cases token.symm.trans (comment_piece comment)
  exact ⟨noComment, lexeme, ⟨_, munch_text_append_rest c cs⟩,
    fun other starts => (other.covered starts noComment).2⟩

/-- Where the scanner reports a fault, no lexeme starts. -/
theorem bare_of_fault {c : Char} {cs : List Char} {cause : LexicalFault}
    (fault : (munch c cs).piece = .fault cause) : Bare (c :: cs) := by
  intro text kind lexeme starts
  have noComment : ¬ ['/', '/'] <+: c :: cs := fun comment => by
    cases fault.symm.trans (comment_piece comment)
  obtain ⟨⟨_, token⟩, -⟩ := lexeme.covered starts noComment
  cases token.symm.trans fault

/-- The scanner follows the rules. -/
theorem first_munch (c : Char) (cs : List Char) : First (c :: cs) (munch c cs) := by
  obtain ⟨blank, taken⟩ | ⟨rest, rfl, rfl⟩ | ⟨kind, token, lexeme⟩ | ⟨rfl, taken⟩ |
    ⟨noBlank, noQuote, taken⟩ := munch_sorts c cs
  · rw [taken]
    exact .blank rfl blank
  · have whole : '/' :: '/' :: rest =
        '/' :: '/' :: (rest.takeWhile (· != '\n') ++ rest.dropWhile (· != '\n')) := by
      rw [List.takeWhile_append_dropWhile]
    refine .comment whole ?_ ?_
    · intro inside
      simpa using List.all_eq_true.1 List.all_takeWhile _ inside
    · intro c first
      have stops := List.head?_dropWhile_not (· != '\n') rest
      simpa [first] using stops
  · obtain ⟨noComment, longest⟩ := longest_munch token lexeme
    have first := First.token (munch_text_append_rest c cs).symm noComment longest
    rwa [← token] at first
  · rw [taken]
    exact .unterminated rfl (bare_of_fault (congrArg Munch.piece taken))
  · rw [taken]
    exact .unexpected rfl noBlank noQuote (bare_of_fault (congrArg Munch.piece taken))

/-- A text starts with one longest lexeme at most. -/
theorem Longest.unique {cs text text' : List Char} {kind kind' : Kind}
    (longest : Longest cs text kind) (other : Longest cs text' kind') :
    text = text' ∧ kind = kind' := by
  have same : text.length = text'.length :=
    (other.longest longest.lexeme longest.starts).antisymm
      (longest.longest other.lexeme other.starts)
  obtain rfl := (List.prefix_of_prefix_length_le longest.starts other.starts same.le).eq_of_length
    same
  exact ⟨rfl, longest.lexeme.unique other.lexeme⟩

/-- The rules leave no choice. -/
theorem First.eq_munch {c : Char} {cs : List Char} {m : Munch} (first : First (c :: cs) m) :
    m = munch c cs := by
  cases first with
  | blank whole blank =>
    cases whole
    exact (munch_blank cs blank).symm
  | @comment body rest whole inside ends =>
    cases whole
    have others : ∀ c ∈ body, (c != '\n') = true := by
      intro c mem
      simpa using fun same : c = '\n' => inside (same ▸ mem)
    have ends : ∀ c, rest.head? = some c → (c != '\n') = false := fun c first => by
      simp [ends c first]
    rw [munch_comment, take, takeWhile_run others ends, dropWhile_run others ends]
    rfl
  | @token text rest kind whole noComment longest =>
    obtain ⟨⟨kind', token⟩, -⟩ := longest.lexeme.covered longest.starts noComment
    obtain ⟨-, taken⟩ | ⟨rest, rfl, rfl⟩ | ⟨kind'', token', lexeme⟩ | ⟨-, taken⟩ | ⟨-, -, taken⟩ :=
      munch_sorts c cs
    · rw [taken] at token
      cases token
    · cases token
    · obtain ⟨rfl, rfl⟩ := longest.unique (longest_munch token' lexeme).2
      have after : rest = (munch c cs).rest :=
        List.append_cancel_left (whole.symm.trans (munch_text_append_rest c cs).symm)
      rw [after, ← token']
    · rw [taken] at token
      cases token
    · rw [taken] at token
      cases token
  | unterminated whole bare =>
    cases whole
    obtain ⟨kind, -, lexeme⟩ | taken := munchString_sorts cs
    · exact absurd ⟨_, munchString_text_append_rest cs⟩ (bare lexeme)
    · exact taken.symm
  | unexpected whole noBlank noQuote bare =>
    cases whole
    obtain ⟨blank, -⟩ | ⟨rest, rfl, rfl⟩ | ⟨kind, -, lexeme⟩ | ⟨quote, -⟩ | ⟨-, -, taken⟩ :=
      munch_sorts c cs
    · exact absurd blank noBlank
    · exact absurd ⟨_, rfl⟩ (bare (.mark .slash))
    · exact absurd ⟨_, munch_text_append_rest c cs⟩ (bare lexeme)
    · exact absurd quote noQuote
    · exact taken.symm

theorem first_iff {cs : List Char} {m : Munch} :
    First cs m ↔ ∃ c rest, cs = c :: rest ∧ m = munch c rest := by
  constructor
  · intro first
    cases cs with
    | nil =>
      cases first with
      | blank whole | comment whole | unterminated whole | unexpected whole => cases whole
      | token whole _ longest =>
        obtain ⟨c, cs, rfl, -⟩ := longest.lexeme.munch_alone
        cases whole
    | cons c rest => exact ⟨c, rest, rfl, first.eq_munch⟩
  · rintro ⟨c, rest, rfl, rfl⟩
    exact first_munch c rest

/-! ### Whole texts -/

theorem lexed_scanFrom (line : Nat) : (cs : List Char) → Lexed line cs (scanFrom line cs)
  | [] => by
    rw [scanFrom]
    exact .done
  | c :: cs => by
    rw [scanFrom_cons]
    exact .more (first_munch c cs) (lexed_scanFrom _ _)
termination_by cs => cs.length
decreasing_by exact Nat.lt_succ_of_le (length_munch_rest_le c cs)

theorem Lexed.eq_scanFrom {line : Nat} {cs : List Char} {found : List Scanned}
    (lexed : Lexed line cs found) : found = scanFrom line cs := by
  induction lexed with
  | done => rw [scanFrom]
  | more first _ same =>
    obtain ⟨c, rest, rfl, rfl⟩ := first_iff.1 first
    rw [same, scanFrom_cons]

end Lox.Scan

namespace Lox

/-- Scanning a text is reading it from end to end by the longest lexeme. -/
theorem scan_eq_iff (source : String) (found : List Scanned) :
    scan source = found ↔ Scan.Lexed 1 source.toList found :=
  ⟨fun same => same ▸ Scan.lexed_scanFrom 1 source.toList, fun lexed => lexed.eq_scanFrom.symm⟩

end Lox
