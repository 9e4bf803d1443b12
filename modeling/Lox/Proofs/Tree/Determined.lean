import Lox.Proofs.Token.Spaced
import Lox.Proofs.Tree.Legible
import Lox.Proofs.Tree.Paired

/-!
# What a printed tree tells

The outline of a legible tree tells the tree, up to identities and lines (`Stmt.paired_of_outline`).
Among expressions the first word of a list and the number of operands tell the node, among
statements the first word alone does. So two statements that were parsed from source texts and are
written alike are alike (`prefixed_determines`).
-/

namespace Lox

open Number (decode)

/-- Trees that differ in identities and lines at most. -/
abbrev Pairing.loose : Pairing := .ofLines fun _ _ => True

section Paired

variable {kinds : List Kind} {t t' : Token} (legible : (Atom.token kinds t).Legible)
  (legible' : (Atom.token kinds t').Legible)

include legible legible'

/-- The text of a token tells its kind. -/
theorem paired_of_lexeme (same : t.lexeme = t'.lexeme) :
    PairedToken .loose t t' :=
  ⟨legible.1.unique (same ▸ legible'.1), same, trivial⟩

/-- Where only one text fits, it tells nothing. -/
theorem paired_of_place {text : String} (only : ∀ k ∈ kinds, k.spelling?.any (· == text) = true) :
    PairedToken .loose t t' := by
  have first := legible.spelled only
  have second := legible'.spelled only
  exact paired_of_lexeme legible legible' ((eq_of_beq first).trans (eq_of_beq second).symm)

end Paired

/-! ### Literals -/

/-- No number is written like another literal. -/
theorem Atom.Legible.number_ne_constant {x : Float} (legible : (literal (.number x)).Legible)
    {l : Literal} (plain : l.Plain) (constant : ∀ y, l ≠ .number y) :
    Number.literal x ≠ l.prefixed := by
  cases l with
  | nil => exact legible.number_ne (by decide : 'n' ∈ "nil".toList) (by decide)
  | bool b =>
    cases b with
    | true => exact legible.number_ne (by decide : 't' ∈ "true".toList) (by decide)
    | false => exact legible.number_ne (by decide : 'f' ∈ "false".toList) (by decide)
  | string => exact plain.elim
  | number y => exact absurd rfl (constant y)

theorem Literal.prefixed_injective {l l' : Literal} (legible : (Atom.literal l).Legible)
    (legible' : (Atom.literal l').Legible) (same : l.prefixed = l'.prefixed) : l = l' := by
  cases l with
  | string => exact legible.1.elim
  | number x =>
    cases l' with
    | number y =>
      obtain ⟨_, _, _, fields⟩ := legible.number
      obtain ⟨_, _, _, fields'⟩ := legible'.number
      exact congrArg _ (Number.literal_injective fields fields' same)
    | string => exact legible'.1.elim
    | nil | bool => exact absurd same (legible.number_ne_constant legible'.1 nofun)
  | nil =>
    cases l' with
    | nil => rfl
    | bool b => cases b <;> exact absurd same (by decide)
    | string => exact legible'.1.elim
    | number y => exact absurd same.symm (legible'.number_ne_constant legible.1 nofun)
  | bool b =>
    cases l' with
    | nil => cases b <;> exact absurd same (by decide)
    | bool b' => cases b <;> cases b' <;> first | rfl | exact absurd same (by decide)
    | string => exact legible'.1.elim
    | number y => exact absurd same.symm (legible'.number_ne_constant legible.1 nofun)

/-! ### Expressions -/

/-- The constructors of expressions. -/
inductive Form
  | literal | unary | binary | logical | group | variable | assign | call | get | set | this | super
  deriving DecidableEq

def Expr.form : Expr → Form
  | .literal _ => .literal
  | .unary _ _ => .unary
  | .binary _ _ _ => .binary
  | .logical _ _ _ => .logical
  | .group _ => .group
  | .variable _ _ => .variable
  | .assign _ _ _ => .assign
  | .call _ _ _ => .call
  | .get _ _ => .get
  | .set _ _ _ => .set
  | .this _ _ => .this
  | .super _ _ _ => .super

/-- What an expression is that shows a word alone. -/
def wordForm (text : String) : Form :=
  if text = "this" then .this
  else if text ∈ ["nil", "true", "false"] ∨ !text.toList.head?.any Scan.isWordStart then .literal
  else .variable

/-- What an expression is that shows a list: the words of the syntax first, then operators. -/
def listForm (head : String) (operands : Nat) : Form :=
  if head = "group" then .group
  else if head = "=" then .assign
  else if head = "call" then .call
  else if head = "." then .get
  else if head = ".=" then .set
  else if head = "super" then .super
  else if head = "or" ∨ head = "and" then .logical
  else if operands = 1 then .unary
  else .binary

def Outline.form : Outline → Form
  | .word text => wordForm text
  | .list (.word head :: operands) => listForm head operands.length
  | .list _ => .group

theorem Atom.Legible.literal_form {l : Literal} (legible : (literal l).Legible) :
    wordForm l.prefixed = .literal := by
  cases l with
  | nil => rfl
  | bool b => cases b <;> rfl
  | string => exact legible.1.elim
  | number x =>
    obtain ⟨⟨c, cs, first⟩, inside⟩ := legible.number_chars
    have shown := inside c (by rw [first]; exact List.mem_cons_self)
    have noWord : Scan.isWordStart c = false := by
      refine Bool.eq_false_iff.2 fun word => ?_
      have letter := Scan.isWordStart_iff.1 word
      rcases shown with digit | rfl | rfl
      · exact letter.not_digit (Scan.isDigit_iff.1 digit)
      · exact absurd letter (by decide)
      · exact absurd letter (by decide)
    have other : Number.literal x ≠ "this" :=
      legible.number_ne (by decide : 't' ∈ "this".toList) (by decide)
    show wordForm (Number.literal x) = _
    rw [wordForm, if_neg other, if_pos (.inr (by rw [first]; simp [noWord]))]

theorem Atom.Legible.name_form {t : Token} (legible : (name t).Legible) :
    wordForm t.lexeme = .variable := by
  obtain ⟨word, free⟩ := legible.identifier
  have others : ∀ k : Keyword, t.lexeme ≠ k.spelling := fun k same => free k (by rw [same])
  have start : t.lexeme.toList.head?.any Scan.isWordStart = true := by
    generalize t.lexeme.toList = cs at word
    cases word with
    | mk letter _ => exact Scan.isWordStart_iff.2 letter
  have noConstant : t.lexeme ∉ ["nil", "true", "false"] := by
    simpa using ⟨others .nil, others .true, others .false⟩
  have noThis : t.lexeme ≠ "this" := others .this
  rw [wordForm, if_neg noThis, if_neg (by simp [start, noConstant])]

/-- The operators are no words of the syntax, and their number of operands tells them apart. -/
theorem Atom.Legible.operator_form {kinds : List Kind} {t : Token}
    (legible : (token kinds t).Legible) {operands : Nat} {form : Form}
    (all : ∀ k ∈ kinds, k.spelling?.any (listForm · operands == form) = true) :
    listForm t.lexeme operands = form := eq_of_beq (legible.spelled all)

theorem Expr.form_outline (e : Expr) (legible : ∀ a ∈ e.atoms, a.Legible) :
    e.outline.form = e.form := by
  cases e with
  | literal => exact (List.forall_mem_singleton.1 legible).literal_form
  | «variable» => exact (List.forall_mem_singleton.1 legible).name_form
  | unary =>
    have all : ∀ k ∈ Grammar.unaryOperators, k.spelling?.any (listForm · 1 == .unary) = true := by
      decide
    exact (List.forall_mem_cons.1 legible).1.operator_form all
  | binary =>
    have all : ∀ k ∈ Grammar.binaryOperators, k.spelling?.any (listForm · 2 == .binary) = true := by
      decide
    exact (List.forall_mem_cons.1 legible).1.operator_form all
  | logical =>
    have all : ∀ k ∈ [Kind.keyword .or, .keyword .and],
        k.spelling?.any (listForm · 2 == .logical) = true := by decide
    exact (List.forall_mem_cons.1 legible).1.operator_form all
  | group | assign | call | get | set | this | «super» => rfl

/-- Legible expressions of one outline are the same kind of node. -/
theorem Expr.same_form {e e' : Expr} (legible : ∀ a ∈ e.atoms, a.Legible)
    (legible' : ∀ a ∈ e'.atoms, a.Legible) (same : e.outline = e'.outline) : e.form = e'.form := by
  rw [← e.form_outline legible, same, e'.form_outline legible']

mutual

theorem Expr.paired_of_outline : (e : Expr) → {e' : Expr} → (∀ a ∈ e.atoms, a.Legible) →
    (∀ a ∈ e'.atoms, a.Legible) → e.outline = e'.outline → PairedExpr .loose e e'
  | .literal l, e', legible, legible', same => by
    have form := Expr.same_form legible legible' same
    cases e' with
    | literal l' =>
      simp only [Expr.atoms, List.forall_mem_cons] at legible legible'
      obtain rfl := Literal.prefixed_injective legible.1 legible'.1 (Outline.word.inj same)
      exact .literal l
    | _ => cases form
  | .unary operator right, e', legible, legible', same => by
    have form := Expr.same_form legible legible' same
    cases e' with
    | unary operator' right' =>
      simp only [Expr.atoms, List.forall_mem_cons] at legible legible'
      simp only [Expr.outline, Outline.list.injEq, List.cons.injEq, Outline.word.injEq] at same
      exact .unary (paired_of_lexeme legible.1 legible'.1 same.1)
        (right.paired_of_outline legible.2 legible'.2 same.2.1)
    | _ => cases form
  | .binary left operator right, e', legible, legible', same => by
    have form := Expr.same_form legible legible' same
    cases e' with
    | binary left' operator' right' =>
      simp only [Expr.atoms, List.forall_mem_cons, List.forall_mem_append] at legible legible'
      simp only [Expr.outline, Outline.list.injEq, List.cons.injEq, Outline.word.injEq] at same
      exact .binary (left.paired_of_outline legible.2.1 legible'.2.1 same.2.1)
        (paired_of_lexeme legible.1 legible'.1 same.1)
        (right.paired_of_outline legible.2.2 legible'.2.2 same.2.2.1)
    | _ => cases form
  | .logical left operator right, e', legible, legible', same => by
    have form := Expr.same_form legible legible' same
    cases e' with
    | logical left' operator' right' =>
      simp only [Expr.atoms, List.forall_mem_cons, List.forall_mem_append] at legible legible'
      simp only [Expr.outline, Outline.list.injEq, List.cons.injEq, Outline.word.injEq] at same
      exact .logical (left.paired_of_outline legible.2.1 legible'.2.1 same.2.1)
        (paired_of_lexeme legible.1 legible'.1 same.1)
        (right.paired_of_outline legible.2.2 legible'.2.2 same.2.2.1)
    | _ => cases form
  | .group inner, e', legible, legible', same => by
    have form := Expr.same_form legible legible' same
    cases e' with
    | group inner' =>
      simp only [Expr.outline, Outline.list.injEq, List.cons.injEq] at same
      exact .group (inner.paired_of_outline legible legible' same.2.1)
    | _ => cases form
  | .variable id name, e', legible, legible', same => by
    have form := Expr.same_form legible legible' same
    cases e' with
    | «variable» id' name' =>
      simp only [Expr.atoms, List.forall_mem_cons] at legible legible'
      exact .variable trivial (paired_of_lexeme legible.1 legible'.1 (Outline.word.inj same))
    | _ => cases form
  | .assign id name value, e', legible, legible', same => by
    have form := Expr.same_form legible legible' same
    cases e' with
    | assign id' name' value' =>
      simp only [Expr.atoms, List.forall_mem_cons] at legible legible'
      simp only [Expr.outline, Outline.list.injEq, List.cons.injEq, Outline.word.injEq] at same
      exact .assign trivial (paired_of_lexeme legible.1 legible'.1 same.2.1)
        (value.paired_of_outline legible.2 legible'.2 same.2.2.1)
    | _ => cases form
  | .call callee paren arguments, e', legible, legible', same => by
    have form := Expr.same_form legible legible' same
    cases e' with
    | call callee' paren' arguments' =>
      simp only [Expr.atoms, List.forall_mem_cons, List.forall_mem_append] at legible legible'
      simp only [Expr.outline, Outline.list.injEq, List.cons.injEq] at same
      have closing : ∀ k ∈ [Kind.symbol .rightParen], k.spelling?.any (· == ")") = true := by decide
      exact .call (callee.paired_of_outline legible.2.1 legible'.2.1 same.2.1)
        (paired_of_place legible.1 legible'.1 closing)
        (Expr.paired_of_outlines arguments legible.2.2 legible'.2.2 same.2.2)
    | _ => cases form
  | .get object name, e', legible, legible', same => by
    have form := Expr.same_form legible legible' same
    cases e' with
    | get object' name' =>
      simp only [Expr.atoms, List.forall_mem_cons] at legible legible'
      simp only [Expr.outline, Outline.list.injEq, List.cons.injEq, Outline.word.injEq] at same
      exact .get (object.paired_of_outline legible.2 legible'.2 same.2.1)
        (paired_of_lexeme legible.1 legible'.1 same.2.2.1)
    | _ => cases form
  | .set object name value, e', legible, legible', same => by
    have form := Expr.same_form legible legible' same
    cases e' with
    | set object' name' value' =>
      simp only [Expr.atoms, List.forall_mem_cons, List.forall_mem_append] at legible legible'
      simp only [Expr.outline, Outline.list.injEq, List.cons.injEq, Outline.word.injEq] at same
      exact .set (object.paired_of_outline legible.2.1 legible'.2.1 same.2.1)
        (paired_of_lexeme legible.1 legible'.1 same.2.2.1)
        (value.paired_of_outline legible.2.2 legible'.2.2 same.2.2.2.1)
    | _ => cases form
  | .this id keyword, e', legible, legible', same => by
    have form := Expr.same_form legible legible' same
    cases e' with
    | this id' keyword' =>
      simp only [Expr.atoms, List.forall_mem_cons] at legible legible'
      have word : ∀ k ∈ [Kind.keyword .this], k.spelling?.any (· == "this") = true := by decide
      exact .this trivial (paired_of_place legible.1 legible'.1 word)
    | _ => cases form
  | .super id keyword method, e', legible, legible', same => by
    have form := Expr.same_form legible legible' same
    cases e' with
    | «super» id' keyword' method' =>
      simp only [Expr.atoms, List.forall_mem_cons] at legible legible'
      simp only [Expr.outline, Outline.list.injEq, List.cons.injEq, Outline.word.injEq] at same
      have word : ∀ k ∈ [Kind.keyword .super], k.spelling?.any (· == "super") = true := by decide
      exact .super trivial (paired_of_place legible.1 legible'.1 word)
        (paired_of_lexeme legible.2.1 legible'.2.1 same.2.1)
    | _ => cases form

theorem Expr.paired_of_outlines : (es : List Expr) → {es' : List Expr} →
    (∀ a ∈ Expr.atomsAll es, a.Legible) → (∀ a ∈ Expr.atomsAll es', a.Legible) →
    Expr.outlineAll es = Expr.outlineAll es' → List.Forall₂ (PairedExpr .loose) es es'
  | [], [], _, _, _ => .nil
  | [], _ :: _, _, _, same => nomatch same
  | _ :: _, [], _, _, same => nomatch same
  | e :: es, _ :: _, legible, legible', same =>
    have parts := List.forall_mem_append.1 legible
    have parts' := List.forall_mem_append.1 legible'
    have heads := List.cons.inj same
    .cons (e.paired_of_outline parts.1 parts'.1 heads.1)
      (Expr.paired_of_outlines es parts.2 parts'.2 heads.2)

end

theorem Expr.paired_of_outlineOption {sign : String} {o o' : Option Expr}
    (legible : ∀ a ∈ Expr.atomsOption o, a.Legible)
    (legible' : ∀ a ∈ Expr.atomsOption o', a.Legible)
    (same : Expr.outlineOption sign o = Expr.outlineOption sign o') :
    Option.Rel (PairedExpr .loose) o o' := by
  cases o with
  | none =>
    cases o' with
    | none => exact .none
    | some => cases same
  | some e =>
    cases o' with
    | none => cases same
    | some e' =>
      simp only [Expr.outlineOption, List.cons.injEq] at same
      exact .some (e.paired_of_outline legible legible' same.2.1)

/-! ### Statements -/

/-- The word that a statement starts with. -/
def Stmt.head : Stmt → String
  | .expression _ => ";"
  | .print _ => "print"
  | .var _ _ => "var"
  | .block _ => "block"
  | .ite _ _ _ => "if"
  | .while _ _ => "while"
  | .break _ => "break"
  | .function _ => "fun"
  | .return _ _ => "return"
  | .class _ _ _ => "class"

def Outline.head? : Outline → Option String
  | .list (.word head :: _) => some head
  | _ => none

theorem Stmt.head_outline (s : Stmt) : s.outline.head? = some s.head := by
  cases s with
  | ite _ _ elseBranch => cases elseBranch <;> rfl
  | «return» _ value => cases value <;> rfl
  | function d =>
    cases d
    rfl
  | expression | print | var | block | «while» | «break» | «class» => rfl

theorem Stmt.same_head {s s' : Stmt} (same : s.outline = s'.outline) : s.head = s'.head :=
  Option.some.inj (by rw [← s.head_outline, same, s'.head_outline])

/-- The superclass stands as a word before the methods, which are lists. -/
theorem superclass_outline {o o' : Option Expr} {ds ds' : List FunctionDecl}
    (same : Expr.outlineOption "<" o ++ FunctionDecl.outlineAll ds =
      Expr.outlineOption "<" o' ++ FunctionDecl.outlineAll ds') :
    Expr.outlineOption "<" o = Expr.outlineOption "<" o' ∧
      FunctionDecl.outlineAll ds = FunctionDecl.outlineAll ds' := by
  have noWord : ∀ (ds : List FunctionDecl) (text : String) (os : List Outline),
      FunctionDecl.outlineAll ds ≠ .word text :: os := by
    intro ds text os list
    cases ds with
    | nil => cases list
    | cons d ds =>
      cases d
      cases list
  cases o with
  | none =>
    cases o' with
    | none => exact ⟨rfl, same⟩
    | some => exact absurd same (noWord _ _ _)
  | some e =>
    cases o' with
    | none => exact absurd same.symm (noWord _ _ _)
    | some e' =>
      simp only [Expr.outlineOption, List.cons_append, List.nil_append, List.cons.injEq] at same
      exact ⟨by rw [Expr.outlineOption, Expr.outlineOption, same.2.1], same.2.2⟩

theorem paired_of_names {ts ts' : List Token} (legible : ∀ a ∈ ts.map Atom.name, a.Legible)
    (legible' : ∀ a ∈ ts'.map Atom.name, a.Legible)
    (same : (ts.map fun t => Outline.word t.lexeme) = ts'.map fun t => Outline.word t.lexeme) :
    List.Forall₂ (PairedToken .loose) ts ts' := by
  induction ts generalizing ts' with
  | nil =>
    cases ts' with
    | nil => exact .nil
    | cons => cases same
  | cons t ts ih =>
    cases ts' with
    | nil => cases same
    | cons t' ts' =>
      rw [List.map_cons, List.forall_mem_cons] at legible legible'
      obtain ⟨first, others⟩ := List.cons.inj same
      exact .cons (paired_of_lexeme legible.1 legible'.1 (Outline.word.inj first))
        (ih legible.2 legible'.2 others)

mutual

theorem Stmt.paired_of_outline : (s : Stmt) → {s' : Stmt} → (∀ a ∈ s.atoms, a.Legible) →
    (∀ a ∈ s'.atoms, a.Legible) → s.outline = s'.outline → PairedStmt .loose s s'
  | .expression e, s', legible, legible', same => by
    have head := Stmt.same_head same
    cases s' with
    | expression e' =>
      simp only [Stmt.outline, Outline.list.injEq, List.cons.injEq] at same
      exact .expression (e.paired_of_outline legible legible' same.2.1)
    | _ => simp [Stmt.head] at head
  | .print e, s', legible, legible', same => by
    have head := Stmt.same_head same
    cases s' with
    | print e' =>
      simp only [Stmt.outline, Outline.list.injEq, List.cons.injEq] at same
      exact .print (e.paired_of_outline legible legible' same.2.1)
    | _ => simp [Stmt.head] at head
  | .var name initializer, s', legible, legible', same => by
    have head := Stmt.same_head same
    cases s' with
    | var name' initializer' =>
      simp only [Stmt.atoms, List.forall_mem_cons] at legible legible'
      simp only [Stmt.outline, Outline.list.injEq, List.cons.injEq, Outline.word.injEq] at same
      exact .var (paired_of_lexeme legible.1 legible'.1 same.2.1)
        (Expr.paired_of_outlineOption legible.2 legible'.2 same.2.2)
    | _ => simp [Stmt.head] at head
  | .block body, s', legible, legible', same => by
    have head := Stmt.same_head same
    cases s' with
    | block body' =>
      simp only [Stmt.outline, Outline.list.injEq, List.cons.injEq] at same
      exact .block (Stmt.paired_of_outlines body legible legible' same.2)
    | _ => simp [Stmt.head] at head
  | .ite condition thenBranch none, s', legible, legible', same => by
    have head := Stmt.same_head same
    cases s' with
    | ite condition' thenBranch' elseBranch' =>
      cases elseBranch' with
      | none =>
        simp only [Stmt.atoms, List.forall_mem_append] at legible legible'
        simp only [Stmt.outline, Outline.list.injEq, List.cons.injEq] at same
        exact .ite (condition.paired_of_outline legible.1 legible'.1 same.2.1)
          (thenBranch.paired_of_outline legible.2 legible'.2 same.2.2.1) .none
      | some => cases congrArg List.length (Outline.list.inj same)
    | _ => simp [Stmt.head] at head
  | .ite condition thenBranch (some elseBranch), s', legible, legible', same => by
    have head := Stmt.same_head same
    cases s' with
    | ite condition' thenBranch' elseBranch' =>
      cases elseBranch' with
      | none => cases congrArg List.length (Outline.list.inj same)
      | some elseBranch' =>
        simp only [Stmt.atoms, List.forall_mem_append] at legible legible'
        simp only [Stmt.outline, Outline.list.injEq, List.cons.injEq] at same
        exact .ite (condition.paired_of_outline legible.1 legible'.1 same.2.1)
          (thenBranch.paired_of_outline legible.2.1 legible'.2.1 same.2.2.1)
          (.some (elseBranch.paired_of_outline legible.2.2 legible'.2.2 same.2.2.2.1))
    | _ => simp [Stmt.head] at head
  | .while condition body, s', legible, legible', same => by
    have head := Stmt.same_head same
    cases s' with
    | «while» condition' body' =>
      simp only [Stmt.atoms, List.forall_mem_append] at legible legible'
      simp only [Stmt.outline, Outline.list.injEq, List.cons.injEq] at same
      exact .while (condition.paired_of_outline legible.1 legible'.1 same.2.1)
        (body.paired_of_outline legible.2 legible'.2 same.2.2.1)
    | _ => simp [Stmt.head] at head
  | .break keyword, s', legible, legible', same => by
    have head := Stmt.same_head same
    cases s' with
    | «break» keyword' =>
      simp only [Stmt.atoms, List.forall_mem_cons] at legible legible'
      have word : ∀ k ∈ [Kind.keyword .break], k.spelling?.any (· == "break") = true := by decide
      exact .break (paired_of_place legible.1 legible'.1 word)
    | _ => simp [Stmt.head] at head
  | .function d, s', legible, legible', same => by
    have head := Stmt.same_head same
    cases s' with
    | function d' => exact .function (d.paired_of_outline legible legible' same)
    | _ => simp [Stmt.head] at head
  | .return keyword value, s', legible, legible', same => by
    have head := Stmt.same_head same
    cases s' with
    | «return» keyword' value' =>
      simp only [Stmt.atoms, List.forall_mem_cons] at legible legible'
      have word : ∀ k ∈ [Kind.keyword .return], k.spelling?.any (· == "return") = true := by decide
      have place := paired_of_place legible.1 legible'.1 word
      cases value with
      | none =>
        cases value' with
        | none => exact .return place .none
        | some => cases congrArg List.length (Outline.list.inj same)
      | some e =>
        cases value' with
        | none => cases congrArg List.length (Outline.list.inj same)
        | some e' =>
          simp only [Stmt.outline, Outline.list.injEq, List.cons.injEq] at same
          exact .return place (.some (e.paired_of_outline legible.2 legible'.2 same.2.1))
    | _ => simp [Stmt.head] at head
  | .class name superclass methods, s', legible, legible', same => by
    have head := Stmt.same_head same
    cases s' with
    | «class» name' superclass' methods' =>
      simp only [Stmt.atoms, List.forall_mem_cons, List.forall_mem_append] at legible legible'
      simp only [Stmt.outline, Outline.list.injEq, List.cons.injEq, Outline.word.injEq] at same
      obtain ⟨parents, routines⟩ := superclass_outline same.2.2
      exact .class (paired_of_lexeme legible.1 legible'.1 same.2.1)
        (Expr.paired_of_outlineOption legible.2.1 legible'.2.1 parents)
        (FunctionDecl.paired_of_outlines methods legible.2.2 legible'.2.2 routines)
    | _ => simp [Stmt.head] at head

theorem Stmt.paired_of_outlines : (ss : List Stmt) → {ss' : List Stmt} →
    (∀ a ∈ Stmt.atomsAll ss, a.Legible) → (∀ a ∈ Stmt.atomsAll ss', a.Legible) →
    Stmt.outlineAll ss = Stmt.outlineAll ss' → PairedBody .loose ss ss'
  | [], [], _, _, _ => .nil
  | [], _ :: _, _, _, same => nomatch same
  | _ :: _, [], _, _, same => nomatch same
  | s :: ss, _ :: _, legible, legible', same =>
    have parts := List.forall_mem_append.1 legible
    have parts' := List.forall_mem_append.1 legible'
    have heads := List.cons.inj same
    .cons (s.paired_of_outline parts.1 parts'.1 heads.1)
      (Stmt.paired_of_outlines ss parts.2 parts'.2 heads.2)

theorem FunctionDecl.paired_of_outline : (d : FunctionDecl) → {d' : FunctionDecl} →
    (∀ a ∈ d.atoms, a.Legible) → (∀ a ∈ d'.atoms, a.Legible) → d.outline = d'.outline →
    PairedDecl .loose d d'
  | .mk name params body, .mk name' params' body', legible, legible', same => by
    simp only [FunctionDecl.atoms, List.forall_mem_cons, List.forall_mem_append] at legible legible'
    simp only [FunctionDecl.outline, Outline.list.injEq, List.cons.injEq,
      Outline.word.injEq] at same
    exact .mk (paired_of_lexeme legible.1 legible'.1 same.2.1)
      (paired_of_names legible.2.1 legible'.2.1 same.2.2.1)
      (Stmt.paired_of_outlines body legible.2.2 legible'.2.2 same.2.2.2)

theorem FunctionDecl.paired_of_outlines : (ds : List FunctionDecl) → {ds' : List FunctionDecl} →
    (∀ a ∈ FunctionDecl.atomsAll ds, a.Legible) → (∀ a ∈ FunctionDecl.atomsAll ds', a.Legible) →
    FunctionDecl.outlineAll ds = FunctionDecl.outlineAll ds' →
    List.Forall₂ (PairedDecl .loose) ds ds'
  | [], [], _, _, _ => .nil
  | [], _ :: _, _, _, same => nomatch same
  | _ :: _, [], _, _, same => nomatch same
  | d :: ds, _ :: _, legible, legible', same =>
    have parts := List.forall_mem_append.1 legible
    have parts' := List.forall_mem_append.1 legible'
    have heads := List.cons.inj same
    .cons (d.paired_of_outline parts.1 parts'.1 heads.1)
      (FunctionDecl.paired_of_outlines ds parts.2 parts'.2 heads.2)

end

/-! ### Parsed programs -/

/-- What stands in the program of a source text is legible, but for its strings and numbers. -/
theorem PartOf.legible {source : String} {nextId : NodeId} {program : List Stmt}
    (parsed : (Grammar.parse (tokenize source).1 nextId).result = .ok program) {s : Stmt}
    (part : PartOf program s) (plain : ∀ l ∈ s.literals, l.Plain) : ∀ a ∈ s.atoms, a.Legible := by
  intro a mem
  refine (Grammar.parse_atoms parsed a (part.atoms mem)).legible ?_ ?_
  · rintro t ⟨known, proper⟩
    exact tokensBeforeEnd_lexeme source t (List.mem_filter.2 ⟨known, by simpa using proper⟩)
  · rintro l rfl
    exact plain l (Stmt.mem_literals.2 mem)

/-- The printed tree determines the tree: statements of two programs, at any depth, that are written
alike are alike but for identities and lines, if they hold no string and no infinite number. -/
theorem prefixed_determines {source source' : String} {nextId nextId' : NodeId}
    {program program' : List Stmt}
    (parsed : (Grammar.parse (tokenize source).1 nextId).result = .ok program)
    (parsed' : (Grammar.parse (tokenize source').1 nextId').result = .ok program') {s s' : Stmt}
    (part : PartOf program s) (part' : PartOf program' s') (plain : ∀ l ∈ s.literals, l.Plain)
    (plain' : ∀ l ∈ s'.literals, l.Plain) (same : s.prefixed = s'.prefixed) :
    PairedStmt .loose s s' := by
  have legible := part.legible parsed plain
  have legible' := part'.legible parsed' plain'
  have shown := s.shows legible
  rw [same] at shown
  exact s.paired_of_outline legible legible' (shown.injective (s'.shows legible'))

/-- A statement of the result of a parse, by what is known of it. -/
theorem exists_of_parsed {tokens : List Token} {nextId : NodeId} {k : Nat} {α : Type}
    {f : Stmt → α} {a : α}
    (known : ((Grammar.parse tokens nextId).result.toOption.bind (·[k]?)).map f = some a) :
    ∃ program s, (Grammar.parse tokens nextId).result = .ok program ∧ PartOf program s ∧
      f s = a := by
  obtain ⟨s, found, same⟩ := Option.map_eq_some_iff.1 known
  obtain ⟨program, read, inside⟩ := Option.bind_eq_some_iff.1 found
  refine ⟨program, s, ?_, ⟨s, List.mem_of_getElem? inside, .refl s⟩, same⟩
  cases result : (Grammar.parse tokens nextId).result with
  | ok tree =>
    rw [result] at read
    cases read
    rfl
  | error faults =>
    rw [result] at read
    cases read

/-- The second time the statement stands on three lines, after another one and with other
identities, and the number is written with a digit less. -/
theorem prefixed_determines_spread :
    let first := "if (a) print -b; else f(c, 1.50);"
    let second := "a = b;\nif (a) print - b;\nelse f(c,\n1.5);"
    ∃ program program' s s', (Grammar.parse (tokenize first).1 0).result = .ok program ∧
      (Grammar.parse (tokenize second).1 7).result = .ok program' ∧ PartOf program s ∧
      PartOf program' s' ∧ (∀ l ∈ s.literals, l.Plain) ∧ (∀ l ∈ s'.literals, l.Plain) ∧
      s.prefixed = s'.prefixed ∧ PairedStmt .loose s s' := by
  intro first second
  have text : ((Grammar.parse (tokenize first).1 0).result.toOption.bind (·[0]?)).map
      (fun s => (s.prefixed, s.literals)) =
        some ("(if a (print (- b)) (; (call f c 1.5)))", [.number 1.5]) := by decide +kernel
  have text' : ((Grammar.parse (tokenize second).1 7).result.toOption.bind (·[1]?)).map
      (fun s => (s.prefixed, s.literals)) =
        some ("(if a (print (- b)) (; (call f c 1.5)))", [.number 1.5]) := by decide +kernel
  have finite : ∀ negative, decode 1.5 ≠ .infinite negative := by decide +kernel
  obtain ⟨program, s, parsed, part, known⟩ := exists_of_parsed text
  obtain ⟨program', s', parsed', part', known'⟩ := exists_of_parsed text'
  obtain ⟨shown, literals⟩ := Prod.mk.inj known
  obtain ⟨shown', literals'⟩ := Prod.mk.inj known'
  have plain : ∀ l ∈ s.literals, l.Plain := by
    rw [literals]
    exact List.forall_mem_singleton.2 finite
  have plain' : ∀ l ∈ s'.literals, l.Plain := by
    rw [literals']
    exact List.forall_mem_singleton.2 finite
  have same := shown.trans shown'.symm
  exact ⟨program, program', s, s', parsed, parsed', part, part', plain, plain', same,
    prefixed_determines parsed parsed' part part' plain plain' same⟩

end Lox
