import Lox.Proofs.Token.Spelling
import Lox.Tree

/-!
# Shapes and identities of trees

What every tree that comes from a source text has in common: branches and bodies of loops declare
nothing, a superclass is a name, no declared name is spelled like `this` or `super`, and no two
nodes have the same identity.
-/

namespace Lox

/-! ### Identities -/

mutual

/-- The identities of the nodes that name a binding, in the order in which they are resolved. -/
def Expr.ids : Expr → List NodeId
  | .literal _ => []
  | .unary _ right => right.ids
  | .binary left _ right => left.ids ++ right.ids
  | .logical left _ right => left.ids ++ right.ids
  | .group inner => inner.ids
  | .variable id _ => [id]
  | .assign id _ value => value.ids ++ [id]
  | .call callee _ arguments => callee.ids ++ Expr.idsAll arguments
  | .get object _ => object.ids
  | .set object _ value => value.ids ++ object.ids
  | .this id _ => [id]
  | .super id _ _ => [id]

def Expr.idsAll : List Expr → List NodeId
  | [] => []
  | e :: es => e.ids ++ Expr.idsAll es

end

def Expr.idsOption : Option Expr → List NodeId
  | none => []
  | some e => e.ids

mutual

def Stmt.ids : Stmt → List NodeId
  | .expression e => e.ids
  | .print e => e.ids
  | .var _ initializer => Expr.idsOption initializer
  | .block body => Stmt.idsAll body
  | .ite condition thenBranch none => condition.ids ++ thenBranch.ids
  | .ite condition thenBranch (some elseBranch) =>
    condition.ids ++ (thenBranch.ids ++ elseBranch.ids)
  | .while condition body => condition.ids ++ body.ids
  | .break _ => []
  | .function d => d.ids
  | .return _ value => Expr.idsOption value
  | .class _ superclass methods => Expr.idsOption superclass ++ FunctionDecl.idsAll methods

def Stmt.idsAll : List Stmt → List NodeId
  | [] => []
  | s :: ss => s.ids ++ Stmt.idsAll ss

def FunctionDecl.ids : FunctionDecl → List NodeId
  | .mk _ _ body => Stmt.idsAll body

def FunctionDecl.idsAll : List FunctionDecl → List NodeId
  | [] => []
  | d :: ds => d.ids ++ FunctionDecl.idsAll ds

end

/-- Identities that were given out between `low` and `high`, each once. -/
structure Fresh (low high : Nat) (ids : List Nat) : Prop where
  distinct : ids.Nodup
  between : ∀ i ∈ ids, low ≤ i ∧ i < high

namespace Fresh

variable {low mid high : Nat} {as bs : List Nat}

theorem nil : Fresh low high [] := ⟨List.nodup_nil, by simp⟩

theorem single : Fresh low (low + 1) [low] := ⟨by simp, by simp⟩

theorem mono (h : Fresh mid high as) {low' high' : Nat} (below : low' ≤ mid)
    (above : high ≤ high') : Fresh low' high' as := by
  refine ⟨h.distinct, fun i mem => ?_⟩
  have bounds := h.between i mem
  omega

theorem append (h : Fresh low mid as) (k : Fresh mid high bs) (below : low ≤ mid)
    (above : mid ≤ high) : Fresh low high (as ++ bs) := by
  refine ⟨List.nodup_append.2 ⟨h.distinct, k.distinct, fun i left j right same => ?_⟩,
    fun i mem => ?_⟩
  · have first := h.between i left
    have second := k.between j right
    omega
  · rcases List.mem_append.1 mem with left | right
    · have first := h.between i left
      omega
    · have second := k.between i right
      omega

theorem perm (h : Fresh low high as) (same : as.Perm bs) : Fresh low high bs :=
  ⟨same.nodup_iff.1 h.distinct, fun i mem => h.between i (same.mem_iff.2 mem)⟩

end Fresh

/-! ### Shapes -/

/-- A name that a program may use as its own. -/
def Token.Declarable (t : Token) : Prop := t.lexeme ≠ "this" ∧ t.lexeme ≠ "super"

mutual

def Expr.Proper : Expr → Prop
  | .literal _ => True
  | .unary _ right => right.Proper
  | .binary left _ right => left.Proper ∧ right.Proper
  | .logical left _ right => left.Proper ∧ right.Proper
  | .group inner => inner.Proper
  | .variable _ name => name.Declarable
  | .assign _ name value => name.Declarable ∧ value.Proper
  | .call callee _ arguments => callee.Proper ∧ Expr.ProperAll arguments
  | .get object _ => object.Proper
  | .set object _ value => object.Proper ∧ value.Proper
  | .this _ keyword => keyword.lexeme = "this"
  | .super _ keyword _ => keyword.lexeme = "super"

def Expr.ProperAll : List Expr → Prop
  | [] => True
  | e :: es => e.Proper ∧ Expr.ProperAll es

end

def Expr.ProperOption : Option Expr → Prop
  | none => True
  | some e => e.Proper

/-- A superclass is given by its name. -/
def IsSuperclass : Option Expr → Prop
  | none => True
  | some e => ∃ id name, e = .variable id name ∧ name.Declarable

/-- Whether the statement adds a name to the scope that it stands in. -/
def Stmt.declares : Stmt → Bool
  | .var _ _ => true
  | .function _ => true
  | .class _ _ _ => true
  | _ => false

mutual

def Stmt.Proper : Stmt → Prop
  | .expression e => e.Proper
  | .print e => e.Proper
  | .var name initializer => name.Declarable ∧ Expr.ProperOption initializer
  | .block body => Stmt.ProperAll body
  | .ite condition thenBranch none =>
    condition.Proper ∧ thenBranch.Proper ∧ thenBranch.declares = false
  | .ite condition thenBranch (some elseBranch) =>
    condition.Proper ∧ (thenBranch.Proper ∧ thenBranch.declares = false) ∧
      elseBranch.Proper ∧ elseBranch.declares = false
  | .while condition body => condition.Proper ∧ body.Proper ∧ body.declares = false
  | .break _ => True
  | .function d => d.name.Declarable ∧ d.Proper
  | .return _ value => Expr.ProperOption value
  | .class name superclass methods =>
    name.Declarable ∧ IsSuperclass superclass ∧ FunctionDecl.ProperAll methods

def Stmt.ProperAll : List Stmt → Prop
  | [] => True
  | s :: ss => s.Proper ∧ Stmt.ProperAll ss

def FunctionDecl.Proper : FunctionDecl → Prop
  | .mk _ params body => (∀ p ∈ params, p.Declarable) ∧ Stmt.ProperAll body

def FunctionDecl.ProperAll : List FunctionDecl → Prop
  | [] => True
  | d :: ds => d.Proper ∧ FunctionDecl.ProperAll ds

end

theorem Token.Spelled.declarable {t : Token} (h : t.Spelled) (isName : t.kind = .identifier) :
    t.Declarable :=
  ⟨h.2 isName .this, h.2 isName .super⟩

end Lox
