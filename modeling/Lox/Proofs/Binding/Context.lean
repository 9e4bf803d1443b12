import Lox.Binding

/-!
# What is around a walk

A pass over a program sets what is around the node at hand and sets it back. So it does what a walk
does that is told what is around it (`Pass.stmt_eq`), and around what comes after a statement is what
was around the statement.
-/

namespace Lox.Binding

/-! ### Told what is around -/

/-- The names in the head of a class: its own, and its superclass. -/
def classHead (c : Context) (w : Walk) (name : Token) (superclass : Option Expr) : Walk :=
  let w := (w.declare name).define name
  match superclass with
  | none => w
  | some e => expr { c with family := .derived } (checkSuperclass w name e) e

/-- Opens the scopes around the methods of a class. -/
def openClass (w : Walk) (derived : Bool) : Walk :=
  (if derived then w.openScope superScope else w).openScope thisScope

def closeClass (w : Walk) (derived : Bool) : Walk :=
  if derived then w.closeScope.closeScope else w.closeScope

mutual

def stmt (c : Context) (w : Walk) : Stmt → Walk
  | .expression e => expr c w e
  | .print e => expr c w e
  | .var name initializer => (expr? c (w.declare name) initializer).define name
  | .block body => (stmts c (w.openScope []) body).closeScope
  | .ite condition thenBranch none => stmt c (expr c w condition) thenBranch
  | .ite condition thenBranch (some elseBranch) =>
    stmt c (stmt c (expr c w condition) thenBranch) elseBranch
  | .while condition body => stmt c (expr c w condition) body
  | .break _ => w
  | .function (.mk name ps body) =>
    routine { c with body := .function } ((w.declare name).define name) (.mk name ps body)
  | .return keyword value => expr? c (checkReturn c w keyword value.isSome) value
  | .class name superclass methods =>
    let derived := superclass.isSome
    let family := if derived then .derived else .base
    let w := openClass (classHead c w name superclass) derived
    closeClass (routines { c with family } w methods) derived

def stmts (c : Context) (w : Walk) : List Stmt → Walk
  | [] => w
  | s :: ss => stmts c (stmt c w s) ss

/-- The parameters and the body of a function share one scope. -/
def routine (c : Context) (w : Walk) : FunctionDecl → Walk
  | .mk _ ps body => (stmts c (params (w.openScope []) ps) body).closeScope

def routines (c : Context) (w : Walk) : List FunctionDecl → Walk
  | [] => w
  | .mk name ps body :: ds =>
    routines c (routine { c with body := methodBody name } w (.mk name ps body)) ds

end

/-! ### The pass -/

namespace Pass

mutual

/-- A statement is walked with what is around it, and that is set back. -/
theorem stmt_eq : (p : Pass) → (s : Stmt) →
    p.stmt s = ⟨Binding.stmt p.around p.walk s, p.around⟩
  | _, .expression _ => rfl
  | _, .print _ => rfl
  | _, .var _ _ => rfl
  | p, .block body => by
    rw [stmt, stmts_eq]
    rfl
  | p, .ite condition thenBranch none => stmt_eq (p.expr condition) thenBranch
  | p, .ite condition thenBranch (some elseBranch) => by
    rw [stmt, stmt_eq (p.expr condition) thenBranch, stmt_eq _ elseBranch]
    rfl
  | p, .while condition body => stmt_eq (p.expr condition) body
  | _, .break _ => rfl
  | p, .function (.mk name ps body) => routine_eq ((p.declare name).define name) .function _
  | _, .return _ _ => rfl
  | p, .class name none methods => by
    rw [stmt, routines_eq]
    rfl
  | p, .class name (some superclass) methods => by
    rw [stmt, routines_eq]
    rfl

theorem stmts_eq : (p : Pass) → (ss : List Stmt) →
    p.stmts ss = ⟨Binding.stmts p.around p.walk ss, p.around⟩
  | _, [] => rfl
  | p, s :: ss => by
    rw [stmts, stmt_eq p s, stmts_eq _ ss]
    rfl

theorem routine_eq : (p : Pass) → (body : Body) → (d : FunctionDecl) →
    p.routine body d = ⟨Binding.routine { p.around with body } p.walk d, p.around⟩
  | p, body, .mk name ps statements => by
    rw [routine, stmts_eq]
    rfl

theorem routines_eq : (p : Pass) → (ds : List FunctionDecl) →
    p.routines ds = ⟨Binding.routines p.around p.walk ds, p.around⟩
  | _, [] => rfl
  | p, .mk name ps body :: ds => by
    rw [routines, routine_eq p _ (.mk name ps body), routines_eq _ ds]
    rfl

end

theorem stmt_around (p : Pass) (s : Stmt) : (p.stmt s).around = p.around := by rw [stmt_eq]

end Pass

theorem program_eq (body : List Stmt) : program body = stmts .program .start body := by
  rw [program, Pass.stmts_eq]

end Lox.Binding
