import Lox.Proofs.Grammar.Acceptance
import Lox.Proofs.Tree.Parts

/-!
# Trees of the grammar

What the grammar says of trees alone: branches and bodies of loops declare nothing, a superclass is
a name, and every `break` stands in a loop of its own function. The parser yields nothing else,
whatever its tokens are spelled like (`parse_formed`).
-/

namespace Lox

/-- A superclass is given by its name. -/
def IsName (superclass : Option Expr) : Prop :=
  ∀ e, superclass = some e → ∃ id name, e = .variable id name

mutual

/-- The statement may stand in a program, in a loop of the same function or not. -/
def Stmt.Formed (inLoop : Bool) : Stmt → Prop
  | .expression _ => True
  | .print _ => True
  | .var _ _ => True
  | .block body => Stmt.FormedAll inLoop body
  | .ite _ thenBranch none => thenBranch.Formed inLoop ∧ thenBranch.declares = false
  | .ite _ thenBranch (some elseBranch) =>
    (thenBranch.Formed inLoop ∧ thenBranch.declares = false) ∧
      elseBranch.Formed inLoop ∧ elseBranch.declares = false
  | .while _ body => body.Formed true ∧ body.declares = false
  | .break _ => inLoop = true
  | .function d => d.Formed
  | .return _ _ => True
  | .class _ superclass methods => IsName superclass ∧ FunctionDecl.FormedAll methods

def Stmt.FormedAll (inLoop : Bool) : List Stmt → Prop
  | [] => True
  | s :: ss => s.Formed inLoop ∧ Stmt.FormedAll inLoop ss

/-- A loop outside is not a loop of the body. -/
def FunctionDecl.Formed : FunctionDecl → Prop
  | .mk _ _ body => Stmt.FormedAll false body

def FunctionDecl.FormedAll : List FunctionDecl → Prop
  | [] => True
  | d :: ds => d.Formed ∧ FunctionDecl.FormedAll ds

end

/-! ### Parts -/

theorem Stmt.formedAll_iff {inLoop : Bool} {ss : List Stmt} :
    Stmt.FormedAll inLoop ss ↔ ∀ s ∈ ss, s.Formed inLoop := by
  induction ss with
  | nil => exact ⟨fun _ _ mem => absurd mem List.not_mem_nil, fun _ => trivial⟩
  | cons s ss ih => rw [Stmt.FormedAll, ih, List.forall_mem_cons]

theorem FunctionDecl.formedAll_iff {ds : List FunctionDecl} :
    FunctionDecl.FormedAll ds ↔ ∀ d ∈ ds, d.Formed := by
  induction ds with
  | nil => exact ⟨fun _ _ mem => absurd mem List.not_mem_nil, fun _ => trivial⟩
  | cons d ds ih => rw [FunctionDecl.FormedAll, ih, List.forall_mem_cons]

theorem FunctionDecl.Formed.body {d : FunctionDecl} (h : d.Formed) : Stmt.FormedAll false d.body := by
  cases d with
  | mk name params body => exact h

theorem Stmt.Formed.functions {inLoop : Bool} {s : Stmt} (h : s.Formed inLoop) :
    ∀ d ∈ s.functions, d.Formed := by
  cases s with
  | function d => exact List.forall_mem_singleton.2 h
  | «class» name superclass methods => exact FunctionDecl.formedAll_iff.1 h.2
  | expression | print | var | block | ite | «while» | «break» | «return» =>
    exact fun d declared => absurd declared List.not_mem_nil

/-- What stands in a formed statement is formed, in a loop or not. -/
theorem Stmt.Formed.children {inLoop : Bool} {s : Stmt} (h : s.Formed inLoop) :
    ∀ t ∈ s.children, ∃ inside, t.Formed inside := by
  have body : ∀ d : FunctionDecl, d.Formed → ∀ t ∈ d.body, ∃ inside, t.Formed inside :=
    fun d formed t mem => ⟨false, Stmt.formedAll_iff.1 formed.body t mem⟩
  cases s with
  | block body => exact fun t mem => ⟨inLoop, Stmt.formedAll_iff.1 h t mem⟩
  | ite condition thenBranch elseBranch =>
    cases elseBranch with
    | none => exact List.forall_mem_singleton.2 ⟨inLoop, h.1⟩
    | some elseBranch =>
      exact List.forall_mem_cons.2 ⟨⟨inLoop, h.1.1⟩, List.forall_mem_singleton.2 ⟨inLoop, h.2.1⟩⟩
  | «while» condition body => exact List.forall_mem_singleton.2 ⟨true, h.1⟩
  | function d => exact body d h
  | «class» name superclass methods =>
    intro t inside
    obtain ⟨d, declared, mem⟩ := List.mem_flatMap.1 inside
    exact body d (FunctionDecl.formedAll_iff.1 h.2 d declared) t mem
  | expression | print | var | «break» | «return» =>
    exact fun t inside => absurd inside List.not_mem_nil

theorem PartOf.formed {program : List Stmt} {s : Stmt} (h : PartOf program s)
    (whole : Stmt.FormedAll false program) : ∃ inLoop, s.Formed inLoop := by
  obtain ⟨top, known, within⟩ := h
  have inner : ∀ s : Stmt, (∃ inLoop, s.Formed inLoop) → ∀ t ∈ s.children, ∃ inLoop, t.Formed inLoop := by
    intro s formed
    obtain ⟨inLoop, formed⟩ := formed
    exact formed.children
  exact within.induct inner ⟨false, Stmt.formedAll_iff.1 whole top known⟩

namespace Ebnf

open Grammar (declaration_starts)

/-- What is derived from fewer than `bound` tokens is formed. -/
structure Forms (dangling : Prop) (bound : Nat) : Prop where
  statement : ∀ {inLoop isOpen ts s}, ts.length < bound → Statement dangling inLoop isOpen ts s →
    s.Formed inLoop ∧ s.declares = false
  body : ∀ {inLoop ts ss}, ts.length < bound → Body dangling inLoop ts ss →
    Stmt.FormedAll inLoop ss

theorem varDecl_formed {ts : List Token} {s : Stmt} (derived : VarDecl ts s) (inLoop : Bool) :
    s.Formed inLoop := by
  cases derived with
  | bare => exact trivial
  | initialized => exact trivial

theorem exprStmt_formed {ts : List Token} {s : Stmt} (derived : ExprStmt ts s) (inLoop : Bool) :
    s.Formed inLoop ∧ s.declares = false := by
  obtain ⟨_, _⟩ := derived
  exact ⟨trivial, rfl⟩

/-- The blocks that a `for` stands for add nothing but the loop. -/
theorem forTree_formed {is : List Token} {initializer : Option Stmt}
    (first : ForInitializer is initializer) (condition increment : Option Expr) {body : Stmt}
    (formed : body.Formed true ∧ body.declares = false) (inLoop : Bool) :
    (forTree initializer condition increment body).Formed inLoop ∧
      (forTree initializer condition increment body).declares = false := by
  have lap : (increment.elim body fun e => .block [body, .expression e]).Formed true ∧
      (increment.elim body fun e => .block [body, .expression e]).declares = false := by
    cases increment with
    | none => exact formed
    | some e => exact ⟨⟨formed.1, trivial, trivial⟩, rfl⟩
  cases first with
  | none => exact ⟨lap, rfl⟩
  | var derived => exact ⟨⟨varDecl_formed derived inLoop, lap, trivial⟩, rfl⟩
  | expression derived => exact ⟨⟨(exprStmt_formed derived inLoop).1, lap, trivial⟩, rfl⟩

theorem superclass_isName {ts : List Token} {superclass : Option Expr}
    (derived : Superclass ts superclass) : IsName superclass := by
  intro e same
  cases derived with
  | none => exact absurd same (by simp)
  | some => exact ⟨_, _, (Option.some.inj same).symm⟩

section Forms

variable {dangling : Prop} {bound : Nat} (h : Forms dangling bound)

include h

theorem statement_formed {inLoop isOpen : Bool} {ts : List Token} {s : Stmt}
    (short : ts.length < bound + 1) (derived : Statement dangling inLoop isOpen ts s) :
    s.Formed inLoop ∧ s.declares = false := by
  cases derived with
  | expression derived => exact exprStmt_formed derived inLoop
  | @«for» _ _ _ _ _ _ _ condition _ _ increment _ _ _ _ _ first _ _ _ _ body =>
    simp only [List.length_cons, List.length_append] at short
    exact forTree_formed first condition increment (h.statement (by omega) body) inLoop
  | ifThen _ _ _ _ branch =>
    simp only [List.length_cons, List.length_append] at short
    exact ⟨h.statement (by omega) branch, rfl⟩
  | ifElse _ _ _ _ branch _ _ other =>
    simp only [List.length_cons, List.length_append] at short
    exact ⟨⟨h.statement (by omega) branch, h.statement (by omega) other⟩, rfl⟩
  | print => exact ⟨trivial, rfl⟩
  | «return» => exact ⟨trivial, rfl⟩
  | «while» _ _ _ _ body =>
    simp only [List.length_cons, List.length_append] at short
    exact ⟨h.statement (by omega) body, rfl⟩
  | «break» => exact ⟨rfl, rfl⟩
  | block _ body _ =>
    simp only [List.length_cons, List.length_append] at short
    exact ⟨h.body (by omega) body, rfl⟩

theorem function_formed {ts : List Token} {d : FunctionDecl} (short : ts.length < bound + 1)
    (derived : Function (Body dangling false) ts d) : d.Formed := by
  obtain ⟨-, -, -, -, -, body, -⟩ := derived
  simp only [List.length_cons, List.length_append] at short
  exact h.body (by omega) body

theorem functions_formed {ts : List Token} {ds : List FunctionDecl} (short : ts.length < bound + 1)
    (derived : Functions (Body dangling false) ts ds) : FunctionDecl.FormedAll ds := by
  induction derived with
  | nil => exact trivial
  | cons first _ ih =>
    simp only [List.length_append] at short
    exact ⟨function_formed h (by omega) first, ih (by omega)⟩

theorem declaration_formed {inLoop : Bool} {ts : List Token} {s : Stmt}
    (short : ts.length < bound + 1) (derived : Declaration dangling inLoop ts s) :
    s.Formed inLoop := by
  cases derived with
  | «class» _ _ head _ methods _ =>
    simp only [List.length_cons, List.length_append] at short
    exact ⟨superclass_isName head, functions_formed h (by omega) methods⟩
  | function _ routine =>
    simp only [List.length_cons] at short
    exact function_formed h (by omega) routine
  | var derived => exact varDecl_formed derived inLoop
  | statement derived => exact (statement_formed h short derived).1

end Forms

theorem forms (dangling : Prop) (bound : Nat) : Forms dangling bound := by
  induction bound with
  | zero => exact ⟨fun short => absurd short (Nat.not_lt_zero _),
      fun short => absurd short (Nat.not_lt_zero _)⟩
  | succ bound ih =>
    refine ⟨statement_formed ih, @fun inLoop ts ss short derived => ?_⟩
    cases derived with
    | nil => exact trivial
    | cons first others =>
      obtain ⟨t, us, rfl, -⟩ := declaration_starts first
      simp only [List.length_append, List.length_cons] at short
      exact ⟨declaration_formed ih (by simp; omega) first, ih.body (by omega) others⟩

theorem Body.formed {dangling : Prop} {inLoop : Bool} {ts : List Token} {ss : List Stmt}
    (derived : Body dangling inLoop ts ss) : Stmt.FormedAll inLoop ss :=
  (forms dangling (ts.length + 1)).body (Nat.lt_succ_self _) derived

end Ebnf

/-- Outside all loops the parser lets no `break` pass. -/
theorem Grammar.parse_formed {tokens : List Token} {nextId : NodeId} {program : List Stmt}
    (parsed : (parse tokens nextId).result = .ok program) : Stmt.FormedAll false program :=
  (derived_of_parse parsed).formed

end Lox
