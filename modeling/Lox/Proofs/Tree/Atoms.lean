import Lox.Proofs.Grammar.Completeness.Expression
import Lox.Proofs.Tree.Parts

/-!
# Atoms of trees

What a tree holds besides its shape and its identities: literals, and tokens with the kinds that the
grammar has for the place of each.
-/

namespace Lox

/-- The operators between two values. `and` and `or` are none of them. -/
def Grammar.binaryOperators : List Kind :=
  [Ebnf.Precedence.equality, .comparison, .term, .factor].flatMap Ebnf.Precedence.operators

inductive Atom
  | literal (l : Literal)
  /-- A token at a place where the grammar has these kinds. -/
  | token (kinds : List Kind) (t : Token)

namespace Atom

def literal? : Atom → Option Literal
  | literal l => some l
  | token _ _ => none

/-- An operator or a name. -/
abbrev unary : Token → Atom := token Grammar.unaryOperators

abbrev binary : Token → Atom := token Grammar.binaryOperators

abbrev logical : Token → Atom := token [.keyword .or, .keyword .and]

abbrev name : Token → Atom := token [.identifier]

abbrev keyword (k : Keyword) : Token → Atom := token [.keyword k]

end Atom

mutual

def Expr.atoms : Expr → List Atom
  | .literal value => [.literal value]
  | .unary operator right => .unary operator :: right.atoms
  | .binary left operator right => .binary operator :: (left.atoms ++ right.atoms)
  | .logical left operator right => .logical operator :: (left.atoms ++ right.atoms)
  | .group inner => inner.atoms
  | .variable _ name => [.name name]
  | .assign _ name value => .name name :: value.atoms
  | .call callee paren arguments =>
    .token [.symbol .rightParen] paren :: (callee.atoms ++ Expr.atomsAll arguments)
  | .get object name => .name name :: object.atoms
  | .set object name value => .name name :: (object.atoms ++ value.atoms)
  | .this _ keyword => [.keyword .this keyword]
  | .super _ keyword method => [.keyword .super keyword, .name method]

def Expr.atomsAll : List Expr → List Atom
  | [] => []
  | e :: es => e.atoms ++ Expr.atomsAll es

end

def Expr.atomsOption : Option Expr → List Atom
  | none => []
  | some e => e.atoms

mutual

def Stmt.atoms : Stmt → List Atom
  | .expression e => e.atoms
  | .print e => e.atoms
  | .var name initializer => .name name :: Expr.atomsOption initializer
  | .block body => Stmt.atomsAll body
  | .ite condition thenBranch none => condition.atoms ++ thenBranch.atoms
  | .ite condition thenBranch (some elseBranch) =>
    condition.atoms ++ (thenBranch.atoms ++ elseBranch.atoms)
  | .while condition body => condition.atoms ++ body.atoms
  | .break keyword => [.keyword .break keyword]
  | .function d => d.atoms
  | .return keyword value => .keyword .return keyword :: Expr.atomsOption value
  | .class name superclass methods =>
    .name name :: (Expr.atomsOption superclass ++ FunctionDecl.atomsAll methods)

def Stmt.atomsAll : List Stmt → List Atom
  | [] => []
  | s :: ss => s.atoms ++ Stmt.atomsAll ss

def FunctionDecl.atoms : FunctionDecl → List Atom
  | .mk name params body => .name name :: (params.map .name ++ Stmt.atomsAll body)

def FunctionDecl.atomsAll : List FunctionDecl → List Atom
  | [] => []
  | d :: ds => d.atoms ++ FunctionDecl.atomsAll ds

end

/-- The literals of a statement, in the bodies of its functions and methods, too. -/
def Stmt.literals (s : Stmt) : List Literal := s.atoms.filterMap Atom.literal?

theorem Stmt.mem_literals {s : Stmt} {l : Literal} : l ∈ s.literals ↔ .literal l ∈ s.atoms := by
  rw [Stmt.literals, List.mem_filterMap]
  constructor
  · rintro ⟨a, mem, same⟩
    cases a with
    | literal l' =>
      cases same
      exact mem
    | token => cases same
  · exact fun mem => ⟨_, mem, rfl⟩

/-! ### Atoms of parts -/

theorem Stmt.mem_atomsAll {ss : List Stmt} {a : Atom} :
    a ∈ Stmt.atomsAll ss ↔ ∃ s ∈ ss, a ∈ s.atoms := by
  induction ss with
  | nil => simp [Stmt.atomsAll]
  | cons s ss ih => simp [Stmt.atomsAll, ih]

theorem FunctionDecl.mem_atomsAll {ds : List FunctionDecl} {a : Atom} :
    a ∈ FunctionDecl.atomsAll ds ↔ ∃ d ∈ ds, a ∈ d.atoms := by
  induction ds with
  | nil => simp [FunctionDecl.atomsAll]
  | cons d ds ih => simp [FunctionDecl.atomsAll, ih]

theorem FunctionDecl.body_atoms {d : FunctionDecl} {s : Stmt} (inside : s ∈ d.body) :
    s.atoms ⊆ d.atoms := by
  cases d with
  | mk name params body =>
    intro a mem
    exact List.mem_cons_of_mem _ (List.mem_append_right _ (Stmt.mem_atomsAll.2 ⟨s, inside, mem⟩))

theorem Stmt.children_atoms {s t : Stmt} (inside : t ∈ s.children) : t.atoms ⊆ s.atoms := by
  intro a mem
  cases s with
  | block body => exact Stmt.mem_atomsAll.2 ⟨t, inside, mem⟩
  | ite condition thenBranch elseBranch =>
    cases elseBranch with
    | none =>
      obtain rfl := List.mem_singleton.1 inside
      exact List.mem_append_right _ mem
    | some elseBranch =>
      rcases List.mem_cons.1 inside with rfl | other
      · exact List.mem_append_right _ (List.mem_append_left _ mem)
      · obtain rfl := List.mem_singleton.1 other
        exact List.mem_append_right _ (List.mem_append_right _ mem)
  | «while» condition body =>
    obtain rfl := List.mem_singleton.1 inside
    exact List.mem_append_right _ mem
  | function d => exact FunctionDecl.body_atoms inside mem
  | «class» name superclass methods =>
    obtain ⟨d, declared, known⟩ := List.mem_flatMap.1 inside
    have held := FunctionDecl.mem_atomsAll.2 ⟨d, declared, FunctionDecl.body_atoms known mem⟩
    exact List.mem_cons_of_mem _ (List.mem_append_right _ held)
  | expression | print | var | «break» | «return» => exact absurd inside List.not_mem_nil

theorem PartOf.atoms {program : List Stmt} {s : Stmt} (h : PartOf program s) :
    s.atoms ⊆ Stmt.atomsAll program := by
  obtain ⟨top, known, within⟩ := h
  refine within.induct (fun _ whole _ inside => List.Subset.trans (Stmt.children_atoms inside) whole)
    fun a mem => Stmt.mem_atomsAll.2 ⟨top, known, mem⟩

end Lox
