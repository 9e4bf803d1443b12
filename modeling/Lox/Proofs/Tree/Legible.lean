import Lox.Proofs.Grammar.Atoms
import Lox.Proofs.Number.Literal
import Lox.Proofs.Number.Numeral
import Lox.Proofs.Token.Lexeme
import Lox.Proofs.Tree.Outline

/-!
# Legible trees

A tree whose tokens are lexemes in their places, without strings and with finite numbers only, is
legible: each of its texts is a single word, so what is written shows its outline (`Stmt.shows`).
What the parser makes of a source text is legible but for strings and numbers (`Atom.Sound.legible`).
-/

namespace Lox

open Number (decode)

/-! ### Legible atoms -/

/-- The text of the literal tells which one it is: it is no string and no infinite number. -/
def Literal.Plain : Literal → Prop
  | .string _ => False
  | .number x => ∀ negative, decode x ≠ .infinite negative
  | _ => True

def Atom.Legible : Atom → Prop
  | .literal l => l.Plain ∧ ∀ x, l = .number x → decode x ≠ .nan
  | .token kinds t => Scan.Lexeme t.lexeme.toList t.kind ∧ t.kind ∈ kinds

theorem Atom.Sound.legible {Q : Token → Prop} {a : Atom} (sound : a.Sound Q)
    (lexemes : ∀ t, Q t → Scan.Lexeme t.lexeme.toList t.kind)
    (plain : ∀ l, a = .literal l → l.Plain) : a.Legible := by
  cases a with
  | token kinds t => exact ⟨lexemes t sound.1, sound.2⟩
  | literal l =>
    refine ⟨plain l rfl, ?_⟩
    rintro x rfl
    obtain ⟨t, known, kind⟩ := sound
    have lexeme := lexemes t known
    rw [kind] at lexeme
    exact Scan.number_ne_nan lexeme

/-! ### Texts of tokens -/

/-- What every token of this kind is written as. -/
def Kind.spelling? : Kind → Option String
  | .symbol s => some (String.ofList s.spelling)
  | .keyword k => some k.spelling
  | _ => none

theorem Scan.Lexeme.spelling {text : String} {kind : Kind} (lexeme : Lexeme text.toList kind)
    {spelled : String} (known : kind.spelling? = some spelled) : text = spelled := by
  generalize same : text.toList = cs at lexeme
  cases lexeme with
  | mark s =>
    cases known
    rw [← same, String.ofList_toList]
  | reserved k =>
    cases known
    exact String.toList_inj.1 same
  | string | number | name => cases known

theorem Scan.Lexeme.identifier {text : List Char} (lexeme : Lexeme text .identifier) :
    Word text ∧ ∀ k : Keyword, k.spelling.toList ≠ text := by
  cases lexeme with
  | name word free => exact ⟨word, free⟩

/-- What holds of the texts of all kinds that fit holds of the text that stands there. -/
theorem Atom.Legible.spelled {kinds : List Kind} {t : Token} (legible : (token kinds t).Legible)
    {p : String → Bool} (all : ∀ k ∈ kinds, k.spelling?.any p = true) : p t.lexeme = true := by
  obtain ⟨lexeme, fits⟩ := legible
  obtain ⟨text, known, holds⟩ := (Option.any_eq_true _ _).1 (all t.kind fits)
  rwa [lexeme.spelling known]

/-! ### Words -/

/-- Nothing but a space and the round brackets ends a word. -/
theorem delimiter?_eq_none {c : Char} (space : c ≠ ' ') (opening : c ≠ '(') (closing : c ≠ ')') :
    delimiter? c = none := by
  unfold delimiter?
  split
  · exact absurd rfl space
  · exact absurd rfl opening
  · exact absurd rfl closing
  · rfl

theorem Scan.Word.solid {text : String} (word : Word text.toList) : Solid text := by
  have inside : ∀ c, Letter c ∨ Digit c → delimiter? c = none := by
    intro c inWord
    apply delimiter?_eq_none
    all_goals
      rintro rfl
      exact absurd inWord (by decide)
  generalize same : text.toList = cs at word
  cases word with
  | mk letter others =>
    refine ⟨by rw [same]; exact List.cons_ne_nil _ _, ?_⟩
    rw [same]
    exact List.forall_mem_cons.2
      ⟨inside _ (.inl letter), fun c mem => inside c (others c mem)⟩

theorem Atom.Legible.identifier {t : Token} (legible : (name t).Legible) :
    Scan.Word t.lexeme.toList ∧ ∀ k : Keyword, k.spelling.toList ≠ t.lexeme.toList := by
  obtain ⟨lexeme, fits⟩ := legible
  rw [List.mem_singleton.1 fits] at lexeme
  exact lexeme.identifier

theorem Atom.Legible.solid {kinds : List Kind} {t : Token} (legible : (token kinds t).Legible)
    (all : ∀ k ∈ kinds, k.spelling?.any isSolid = true) : Solid t.lexeme :=
  .of_isSolid (legible.spelled all)

/-- A finite number is shown by a sign or none, and digits with a point between them or none. -/
theorem Atom.Legible.number {x : Float} (legible : (literal (.number x)).Legible) :
    ∃ negative mantissa exponent, decode x = .finite negative mantissa exponent := by
  cases fields : decode x with
  | nan => exact absurd fields (legible.2 x rfl)
  | infinite negative => exact absurd fields (legible.1 negative)
  | finite negative mantissa exponent => exact ⟨negative, mantissa, exponent, rfl⟩

theorem Atom.Legible.number_chars {x : Float} (legible : (literal (.number x)).Legible) :
    (∃ c cs, (Number.literal x).toList = c :: cs) ∧
      ∀ c ∈ (Number.literal x).toList, c.isDigit = true ∨ c = '.' ∨ c = '-' := by
  obtain ⟨negative, mantissa, exponent, fields⟩ := legible.number
  obtain ⟨d, text, -⟩ := Number.literal_eq fields
  obtain ⟨⟨c, cs, first, -⟩, all⟩ := Number.positional_chars d
  have inside : ∀ c ∈ d.positional.toList, c.isDigit = true ∨ c = '.' ∨ c = '-' :=
    fun c mem => (all c mem).imp_right .inl
  rw [text, String.toList_append]
  cases negative with
  | false => exact ⟨⟨c, cs, first⟩, inside⟩
  | true => exact ⟨⟨'-', _, rfl⟩, List.forall_mem_cons.2 ⟨.inr (.inr rfl), inside⟩⟩

/-- A text with another character is that of no number. -/
theorem Atom.Legible.number_ne {x : Float} (legible : (literal (.number x)).Legible) {text : String}
    {c : Char} (mem : c ∈ text.toList) (other : ¬ (c.isDigit = true ∨ c = '.' ∨ c = '-')) :
    Number.literal x ≠ text :=
  fun same => other (legible.number_chars.2 c (same ▸ mem))

theorem Atom.Legible.literal_solid {l : Literal} (legible : (literal l).Legible) :
    Solid l.prefixed := by
  cases l with
  | nil => exact .of_isSolid rfl
  | bool b => cases b <;> exact .of_isSolid rfl
  | string => exact legible.1.elim
  | number x =>
    obtain ⟨⟨c, cs, some⟩, inside⟩ := legible.number_chars
    refine ⟨?_, fun c mem => ?_⟩
    · show (Number.literal x).toList ≠ []
      rw [some]
      exact List.cons_ne_nil c cs
    · have shown := inside c mem
      apply delimiter?_eq_none
      all_goals
        rintro rfl
        exact absurd shown (by decide)

/-! ### Texts show outlines -/

mutual

theorem Expr.shows : (e : Expr) → (∀ a ∈ e.atoms, a.Legible) → Shows e.prefixed [e.outline]
  | .literal _, legible => shows_word (List.forall_mem_singleton.1 legible).literal_solid
  | .unary _ right, legible =>
    have parts := List.forall_mem_cons.1 legible
    shows_parenthesized (.one (shows_word (parts.1.solid (by decide)))
      (.one (right.shows parts.2) .nil))
  | .binary left _ right, legible =>
    have parts := List.forall_mem_cons.1 legible
    have operands := List.forall_mem_append.1 parts.2
    shows_parenthesized (.one (shows_word (parts.1.solid (by decide)))
      (.one (left.shows operands.1) (.one (right.shows operands.2) .nil)))
  | .logical left _ right, legible =>
    have parts := List.forall_mem_cons.1 legible
    have operands := List.forall_mem_append.1 parts.2
    shows_parenthesized (.one (shows_word (parts.1.solid (by decide)))
      (.one (left.shows operands.1) (.one (right.shows operands.2) .nil)))
  | .group inner, legible =>
    shows_parenthesized (.one (shows_constant rfl) (.one (inner.shows legible) .nil))
  | .variable _ _, legible => shows_word (List.forall_mem_singleton.1 legible).identifier.1.solid
  | .assign _ _ value, legible =>
    have parts := List.forall_mem_cons.1 legible
    shows_parenthesized (.one (shows_constant rfl)
      (.one (shows_word parts.1.identifier.1.solid) (.one (value.shows parts.2) .nil)))
  | .call callee _ arguments, legible =>
    have parts := List.forall_mem_append.1 (List.forall_mem_cons.1 legible).2
    shows_parenthesized (.one (shows_constant rfl)
      (.one (callee.shows parts.1) (Expr.showsAll arguments parts.2)))
  | .get object _, legible =>
    have parts := List.forall_mem_cons.1 legible
    shows_parenthesized (.one (shows_constant rfl)
      (.one (object.shows parts.2) (.one (shows_word parts.1.identifier.1.solid) .nil)))
  | .set object _ value, legible =>
    have parts := List.forall_mem_cons.1 legible
    have operands := List.forall_mem_append.1 parts.2
    shows_parenthesized (.one (shows_constant rfl)
      (.one (object.shows operands.1) (.one (shows_word parts.1.identifier.1.solid)
        (.one (value.shows operands.2) .nil))))
  | .this _ _, _ => (shows_constant rfl : Shows "this" _)
  | .super _ _ _, legible =>
    have named := List.forall_mem_singleton.1 (List.forall_mem_cons.1 legible).2
    shows_parenthesized (.one (shows_constant rfl)
      (.one (shows_word named.identifier.1.solid) .nil))

theorem Expr.showsAll : (es : List Expr) → (∀ a ∈ Expr.atomsAll es, a.Legible) →
    ShowsAll (Expr.prefixedAll es) (Expr.outlineAll es)
  | [], _ => .nil
  | e :: es, legible =>
    have parts := List.forall_mem_append.1 legible
    .one (e.shows parts.1) (Expr.showsAll es parts.2)

end

mutual

theorem Stmt.shows : (s : Stmt) → (∀ a ∈ s.atoms, a.Legible) → Shows s.prefixed [s.outline]
  | .expression e, legible =>
    shows_parenthesized (.one (shows_constant rfl) (.one (e.shows legible) .nil))
  | .print e, legible =>
    shows_parenthesized (.one (shows_constant rfl) (.one (e.shows legible) .nil))
  | .var _ none, legible =>
    have named := List.forall_mem_singleton.1 legible
    shows_parenthesized (.one (shows_constant rfl)
      (.one (shows_word named.identifier.1.solid) .nil))
  | .var _ (some e), legible =>
    have parts := List.forall_mem_cons.1 legible
    shows_parenthesized (.one (shows_constant rfl)
      (.one (shows_word parts.1.identifier.1.solid)
        (.one (shows_constant rfl) (.one (e.shows parts.2) .nil))))
  | .block body, legible =>
    shows_parenthesized (.one (shows_constant rfl) (Stmt.showsAll body legible))
  | .ite condition thenBranch none, legible =>
    have parts := List.forall_mem_append.1 legible
    shows_parenthesized (.one (shows_constant rfl)
      (.one (condition.shows parts.1) (.one (thenBranch.shows parts.2) .nil)))
  | .ite condition thenBranch (some elseBranch), legible =>
    have parts := List.forall_mem_append.1 legible
    have branches := List.forall_mem_append.1 parts.2
    shows_parenthesized (.one (shows_constant rfl)
      (.one (condition.shows parts.1) (.one (thenBranch.shows branches.1)
        (.one (elseBranch.shows branches.2) .nil))))
  | .while condition body, legible =>
    have parts := List.forall_mem_append.1 legible
    shows_parenthesized (.one (shows_constant rfl)
      (.one (condition.shows parts.1) (.one (body.shows parts.2) .nil)))
  | .break _, _ => shows_parenthesized (.one (shows_constant rfl) .nil)
  | .function d, legible => d.shows legible
  | .return _ none, _ => shows_parenthesized (.one (shows_constant rfl) .nil)
  | .return _ (some e), legible =>
    shows_parenthesized (.one (shows_constant rfl)
      (.one (e.shows (List.forall_mem_cons.1 legible).2) .nil))
  | .class _ none methods, legible =>
    have parts := List.forall_mem_cons.1 legible
    shows_parenthesized (.one (shows_constant rfl)
      (.one (shows_word parts.1.identifier.1.solid) (FunctionDecl.showsAll methods parts.2)))
  | .class _ (some superclass) methods, legible =>
    have parts := List.forall_mem_cons.1 legible
    have inside := List.forall_mem_append.1 parts.2
    shows_parenthesized (.one (shows_constant rfl)
      (.one (shows_word parts.1.identifier.1.solid) (.one (shows_constant rfl)
        (.one (superclass.shows inside.1) (FunctionDecl.showsAll methods inside.2)))))

theorem Stmt.showsAll : (ss : List Stmt) → (∀ a ∈ Stmt.atomsAll ss, a.Legible) →
    ShowsAll (Stmt.prefixedAll ss) (Stmt.outlineAll ss)
  | [], _ => .nil
  | s :: ss, legible =>
    have parts := List.forall_mem_append.1 legible
    .one (s.shows parts.1) (Stmt.showsAll ss parts.2)

theorem FunctionDecl.shows : (d : FunctionDecl) → (∀ a ∈ d.atoms, a.Legible) →
    Shows d.prefixed [d.outline]
  | .mk _ _ body, legible =>
    have parts := List.forall_mem_cons.1 legible
    have inside := List.forall_mem_append.1 parts.2
    have names := List.forall_mem_map.1 inside.1
    shows_parenthesized (.one (shows_constant rfl)
      (.cons (shows_heading parts.1.identifier.1.solid fun p mem => (names p mem).identifier.1.solid)
        (Stmt.showsAll body inside.2)))

theorem FunctionDecl.showsAll : (ds : List FunctionDecl) →
    (∀ a ∈ FunctionDecl.atomsAll ds, a.Legible) →
    ShowsAll (FunctionDecl.prefixedAll ds) (FunctionDecl.outlineAll ds)
  | [], _ => .nil
  | d :: ds, legible =>
    have parts := List.forall_mem_append.1 legible
    .one (d.shows parts.1) (FunctionDecl.showsAll ds parts.2)

end

end Lox
