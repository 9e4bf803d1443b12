import Mathlib.Data.List.Infix
import Mathlib.Logic.Relation
import Lox.Proofs.Tree.Shape

/-!
# Parts of programs

The statements that stand in a statement, in the bodies of its functions and methods, too. A shape
that a statement hands on to the statements right inside it holds of all its parts
(`Within.induct`).
-/

namespace Lox

/-- The statements right inside a statement. -/
def Stmt.children : Stmt → List Stmt
  | .block body => body
  | .ite _ thenBranch none => [thenBranch]
  | .ite _ thenBranch (some elseBranch) => [thenBranch, elseBranch]
  | .while _ body => [body]
  | .function d => d.body
  | .class _ _ methods => methods.flatMap FunctionDecl.body
  | _ => []

/-- The functions or methods that a statement declares. -/
def Stmt.functions : Stmt → List FunctionDecl
  | .function d => [d]
  | .class _ _ methods => methods
  | _ => []

/-- The second statement is the first one or stands in it at any depth. -/
def Within : Stmt → Stmt → Prop := Relation.ReflTransGen fun s t => t ∈ s.children

namespace Within

theorem refl (s : Stmt) : Within s s := Relation.ReflTransGen.refl

theorem inner {s t u : Stmt} (h : Within s t) (inside : u ∈ t.children) : Within s u :=
  Relation.ReflTransGen.tail h inside

theorem trans {s t u : Stmt} (h : Within s t) (k : Within t u) : Within s u :=
  Relation.ReflTransGen.trans h k

theorem induct {Q : Stmt → Prop} (inner : ∀ s, Q s → ∀ t ∈ s.children, Q t) {s t : Stmt}
    (h : Within s t) (whole : Q s) : Q t := by
  induction h with
  | refl => exact whole
  | tail _ inside ih => exact inner _ ih _ inside

end Within

/-- The statement is a part of a program. -/
def PartOf (program : List Stmt) (s : Stmt) : Prop := ∃ top ∈ program, Within top s

theorem PartOf.inner {program : List Stmt} {s t : Stmt} (h : PartOf program s)
    (inside : t ∈ s.children) : PartOf program t := by
  obtain ⟨top, known, within⟩ := h
  exact ⟨top, known, within.inner inside⟩

/-- The body of a function stands right inside the statement that declares it. -/
theorem Stmt.body_children {s : Stmt} {d : FunctionDecl} (declared : d ∈ s.functions) :
    d.body ⊆ s.children := by
  cases s with
  | function d' =>
    obtain rfl := List.mem_singleton.1 declared
    exact List.Subset.refl _
  | «class» name superclass methods =>
    exact fun t inside => List.mem_flatMap.2 ⟨d, declared, inside⟩
  | expression | print | var | block | ite | «while» | «break» | «return» =>
    exact absurd declared List.not_mem_nil

/-! ### Shapes -/

theorem Stmt.properAll_iff {ss : List Stmt} : Stmt.ProperAll ss ↔ ∀ s ∈ ss, s.Proper := by
  induction ss with
  | nil => exact ⟨fun _ _ mem => absurd mem List.not_mem_nil, fun _ => trivial⟩
  | cons s ss ih => rw [Stmt.ProperAll, ih, List.forall_mem_cons]

theorem FunctionDecl.properAll_iff {ds : List FunctionDecl} :
    FunctionDecl.ProperAll ds ↔ ∀ d ∈ ds, d.Proper := by
  induction ds with
  | nil => exact ⟨fun _ _ mem => absurd mem List.not_mem_nil, fun _ => trivial⟩
  | cons d ds ih => rw [FunctionDecl.ProperAll, ih, List.forall_mem_cons]

theorem FunctionDecl.Proper.body {d : FunctionDecl} (h : d.Proper) : ∀ s ∈ d.body, s.Proper := by
  cases d with
  | mk name params body => exact Stmt.properAll_iff.1 h.2

theorem FunctionDecl.Proper.params {d : FunctionDecl} (h : d.Proper) :
    ∀ p ∈ d.params, p.Declarable := by
  cases d with
  | mk name params body => exact h.1

theorem Stmt.Proper.functions {s : Stmt} (h : s.Proper) : ∀ d ∈ s.functions, d.Proper := by
  cases s with
  | function d =>
    intro d' declared
    obtain rfl := List.mem_singleton.1 declared
    exact h.2
  | «class» name superclass methods => exact FunctionDecl.properAll_iff.1 h.2.2
  | expression | print | var | block | ite | «while» | «break» | «return» =>
    exact fun d declared => absurd declared List.not_mem_nil

theorem Stmt.Proper.children {s : Stmt} (h : s.Proper) : ∀ t ∈ s.children, t.Proper := by
  cases s with
  | block body => exact Stmt.properAll_iff.1 h
  | ite condition thenBranch elseBranch =>
    cases elseBranch with
    | none => exact List.forall_mem_singleton.2 h.2.1
    | some elseBranch =>
      exact List.forall_mem_cons.2 ⟨h.2.1.1, List.forall_mem_singleton.2 h.2.2.1⟩
  | «while» condition body => exact List.forall_mem_singleton.2 h.2.1
  | function d => exact h.2.body
  | «class» name superclass methods =>
    intro t inside
    obtain ⟨d, declared, mem⟩ := List.mem_flatMap.1 inside
    exact (FunctionDecl.properAll_iff.1 h.2.2 d declared).body t mem
  | expression | print | var | «break» | «return» =>
    exact fun t inside => absurd inside List.not_mem_nil

theorem PartOf.proper {program : List Stmt} {s : Stmt} (h : PartOf program s)
    (whole : Stmt.ProperAll program) : s.Proper := by
  obtain ⟨top, known, within⟩ := h
  exact within.induct (fun _ => Stmt.Proper.children) (Stmt.properAll_iff.1 whole top known)

/-! ### Identities -/

theorem Stmt.ids_infix {ss : List Stmt} {s : Stmt} (inside : s ∈ ss) :
    s.ids <:+: Stmt.idsAll ss := by
  induction ss with
  | nil => exact absurd inside List.not_mem_nil
  | cons t ss ih =>
    rcases List.mem_cons.1 inside with rfl | later
    · exact (List.prefix_append _ _).isInfix
    · exact (ih later).trans (List.suffix_append _ _).isInfix

theorem FunctionDecl.ids_infix {ds : List FunctionDecl} {d : FunctionDecl} (inside : d ∈ ds) :
    d.ids <:+: FunctionDecl.idsAll ds := by
  induction ds with
  | nil => exact absurd inside List.not_mem_nil
  | cons d' ds ih =>
    rcases List.mem_cons.1 inside with rfl | later
    · exact (List.prefix_append _ _).isInfix
    · exact (ih later).trans (List.suffix_append _ _).isInfix

theorem FunctionDecl.body_infix {d : FunctionDecl} {s : Stmt} (inside : s ∈ d.body) :
    s.ids <:+: d.ids := by
  cases d with
  | mk name params body => exact Stmt.ids_infix inside

theorem Stmt.children_infix {s t : Stmt} (inside : t ∈ s.children) : t.ids <:+: s.ids := by
  cases s with
  | block body => exact Stmt.ids_infix inside
  | ite condition thenBranch elseBranch =>
    cases elseBranch with
    | none =>
      obtain rfl := List.mem_singleton.1 inside
      exact (List.suffix_append _ _).isInfix
    | some elseBranch =>
      have branches : t.ids <:+: thenBranch.ids ++ elseBranch.ids := by
        rcases List.mem_cons.1 inside with rfl | other
        · exact (List.prefix_append _ _).isInfix
        · obtain rfl := List.mem_singleton.1 other
          exact (List.suffix_append _ _).isInfix
      exact branches.trans (List.suffix_append _ _).isInfix
  | «while» condition body =>
    obtain rfl := List.mem_singleton.1 inside
    exact (List.suffix_append _ _).isInfix
  | function d => exact FunctionDecl.body_infix inside
  | «class» name superclass methods =>
    obtain ⟨d, declared, mem⟩ := List.mem_flatMap.1 inside
    exact ((FunctionDecl.body_infix mem).trans (FunctionDecl.ids_infix declared)).trans
      (List.suffix_append _ _).isInfix
  | expression | print | var | «break» | «return» => exact absurd inside List.not_mem_nil

/-- The identities in a part of a program stand together, in the order of the program. -/
theorem PartOf.ids_infix {program : List Stmt} {s : Stmt} (h : PartOf program s) :
    s.ids <:+: Stmt.idsAll program := by
  obtain ⟨top, known, within⟩ := h
  exact within.induct (fun _ whole _ inside => (Stmt.children_infix inside).trans whole)
    (Stmt.ids_infix known)

end Lox
