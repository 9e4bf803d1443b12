import Lox.Token.Scan

/-!
# How tokens are spelled

A reserved word is spelled as the language spells it, and no name is spelled like a reserved word.
-/

namespace Lox

/-- The text of a token fits its kind. -/
def Token.Spelled (t : Token) : Prop :=
  (∀ k, t.kind = .keyword k → t.lexeme = k.spelling) ∧
    (t.kind = .identifier → ∀ k : Keyword, t.lexeme ≠ k.spelling)

namespace Scan

/-- A text whose kind is neither a reserved word nor a name may be anything. -/
theorem spelled_other {kind : Kind} {lexeme : String} {line : Nat} (word : ∀ k, kind ≠ .keyword k)
    (name : kind ≠ .identifier) : (⟨kind, lexeme, line⟩ : Token).Spelled :=
  ⟨fun k isWord => absurd isWord (word k), fun isName => absurd isName name⟩

theorem spelled_word (word : List Char) (line : Nat) :
    (⟨wordKind word, String.ofList word, line⟩ : Token).Spelled := by
  unfold wordKind
  cases found : Keyword.ofSpelling? (String.ofList word) with
  | some k =>
    refine ⟨fun k' same => ?_, nofun⟩
    have spelled := List.find?_some found
    obtain rfl : k = k' := by simpa using same
    exact (by simpa using spelled : k.spelling = String.ofList word).symm
  | none =>
    refine ⟨nofun, fun _ k same => ?_⟩
    change String.ofList word = k.spelling at same
    rw [same, Keyword.ofSpelling?_spelling] at found
    cases found

theorem munchNumber_piece (cs : List Char) :
    ∃ x, (munchNumber cs).piece = .token (.number x) := by
  unfold munchNumber
  split
  · split <;> exact ⟨_, rfl⟩
  · exact ⟨_, rfl⟩

theorem munchNumber_spelled (cs : List Char) (line : Nat) (kind : Kind)
    (found : (munchNumber cs).piece = .token kind) (lexeme : String) :
    (⟨kind, lexeme, line⟩ : Token).Spelled := by
  obtain ⟨x, number⟩ := munchNumber_piece cs
  cases number.symm.trans found
  exact spelled_other nofun nofun

theorem munch_spelled (c : Char) (cs : List Char) (line : Nat) (kind : Kind)
    (found : (munch c cs).piece = .token kind) :
    (⟨kind, String.ofList (munch c cs).text, line⟩ : Token).Spelled := by
  unfold munch at found ⊢
  split at found
  · cases found
    exact spelled_other (by simp) (by simp)
  · split at found <;> cases found <;> exact spelled_other (by simp) (by simp)
  · split at found
    · split at found
      · cases found
      · cases found
        exact spelled_other (by simp) (by simp)
    · split at found
      · unfold munchString at found
        split at found
        · cases found
        · cases found
          exact spelled_other (by simp) (by simp)
      · split at found
        · cases found
        · split at found
          · exact munchNumber_spelled _ line kind found _
          · split at found
            · simp only [*, if_true, if_false, Bool.false_eq_true]
              cases found
              exact spelled_word _ line
            · cases found

theorem scanFrom_spelled (line : Nat) (cs : List Char) :
    ∀ t, .token t ∈ scanFrom line cs → t.Spelled := by
  fun_induction scanFrom line cs with
  | case1 line =>
    intro t mem
    obtain rfl : t = _ := by simpa using mem
    exact spelled_other nofun nofun
  | case2 line c cs m last isSkip ih => exact ih
  | case3 line c cs m last kind isToken ih =>
    intro t mem
    rcases List.mem_cons.1 mem with same | later
    · cases same
      exact munch_spelled c cs last kind isToken
    · exact ih t later
  | case4 line c cs m last cause isFault ih =>
    intro t mem
    rcases List.mem_cons.1 mem with same | later
    · cases same
    · exact ih t later

end Scan

/-- Every token of a source text is spelled as its kind demands. -/
theorem tokenize_spelled (source : String) : ∀ t ∈ (tokenize source).1, t.Spelled := by
  intro t mem
  obtain ⟨piece, found, same⟩ := List.mem_filterMap.1 mem
  cases piece with
  | fault line cause => cases same
  | token t' =>
    cases same
    exact Scan.scanFrom_spelled 1 source.toList t found

end Lox
