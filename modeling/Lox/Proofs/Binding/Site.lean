import Lox.Proofs.Binding.Context
import Lox.Proofs.Tree.Shape

/-!
# Sites

A site is a node that names a binding, with the scopes that are open when the walk visits it and
what each of them stands for at run time. The walk records the distance of every site
(`stmt_walked`).
-/

namespace Lox.Binding

/-- What a run opens a scope for. -/
inductive Origin
  | block (body : List Stmt)
  | call (d : FunctionDecl)
  /-- The scope of `this` around a method. -/
  | this (method : FunctionDecl)
  /-- The scope of `super` around the methods of a class. -/
  | super (methods : List FunctionDecl)

def distance (scopes : List Scope) (name : String) : Option Nat :=
  scopes.findIdx? fun scope => (scope.lookup name).isSome

structure Site where
  id : NodeId
  name : String
  /-- The node is an assignment. -/
  writes : Bool
  scopes : List Scope
  origins : List Origin
  /-- The class in whose superclass clause the node stands. -/
  own : Option String

mutual

/-- The sites of an expression, which leaves the scopes as they are. -/
def exprSites (scopes : List Scope) (origins : List Origin) (own : Option String) :
    Expr → List Site
  | .literal _ => []
  | .unary _ right => exprSites scopes origins own right
  | .binary left _ right => exprSites scopes origins own left ++ exprSites scopes origins own right
  | .logical left _ right => exprSites scopes origins own left ++ exprSites scopes origins own right
  | .group inner => exprSites scopes origins own inner
  | .variable id name => [⟨id, name.lexeme, false, scopes, origins, own⟩]
  | .assign id name value =>
    exprSites scopes origins own value ++ [⟨id, name.lexeme, true, scopes, origins, own⟩]
  | .call callee _ arguments =>
    exprSites scopes origins own callee ++ exprsSites scopes origins own arguments
  | .get object _ => exprSites scopes origins own object
  | .set object _ value => exprSites scopes origins own value ++ exprSites scopes origins own object
  | .this id keyword => [⟨id, keyword.lexeme, false, scopes, origins, own⟩]
  | .super id keyword _ => [⟨id, keyword.lexeme, false, scopes, origins, own⟩]

def exprsSites (scopes : List Scope) (origins : List Origin) (own : Option String) :
    List Expr → List Site
  | [] => []
  | e :: es => exprSites scopes origins own e ++ exprsSites scopes origins own es

end

def expr?Sites (scopes : List Scope) (origins : List Origin) (own : Option String) :
    Option Expr → List Site
  | none => []
  | some e => exprSites scopes origins own e

/-- What stands for the scope around the scopes of `this` in a class. -/
def classOrigins (origins : List Origin) (superclass : Option Expr) (methods : List FunctionDecl) :
    List Origin :=
  if superclass.isSome then .super methods :: origins else origins

def classContext (c : Context) (superclass : Option Expr) : Context :=
  { c with family := if superclass.isSome then .derived else .base }

mutual

/-- The sites of a statement, given the walk as it is before the statement. -/
def stmtSites (origins : List Origin) (c : Context) (w : Walk) : Stmt → List Site
  | .expression e => exprSites w.scopes origins none e
  | .print e => exprSites w.scopes origins none e
  | .var name initializer => expr?Sites (w.declare name).scopes origins none initializer
  | .block body => stmtsSites (.block body :: origins) c (w.openScope []) body
  | .ite condition thenBranch none =>
    exprSites w.scopes origins none condition ++
      stmtSites origins c (expr c w condition) thenBranch
  | .ite condition thenBranch (some elseBranch) =>
    exprSites w.scopes origins none condition ++
      (stmtSites origins c (expr c w condition) thenBranch ++
        stmtSites origins c (stmt c (expr c w condition) thenBranch) elseBranch)
  | .while condition body =>
    exprSites w.scopes origins none condition ++ stmtSites origins c (expr c w condition) body
  | .break _ => []
  | .function (.mk name ps body) =>
    routineSites origins { c with body := .function } ((w.declare name).define name)
      (.mk name ps body)
  | .return _ value => expr?Sites w.scopes origins none value
  | .class name superclass methods =>
    expr?Sites ((w.declare name).define name).scopes origins (some name.lexeme) superclass ++
      routinesSites (classOrigins origins superclass methods) (classContext c superclass)
        (openClass (classHead c w name superclass) superclass.isSome) methods

def stmtsSites (origins : List Origin) (c : Context) (w : Walk) : List Stmt → List Site
  | [] => []
  | s :: ss => stmtSites origins c w s ++ stmtsSites origins c (stmt c w s) ss

def routineSites (origins : List Origin) (c : Context) (w : Walk) : FunctionDecl → List Site
  | .mk name ps body =>
    stmtsSites (.call (.mk name ps body) :: origins) c (params (w.openScope []) ps) body

def routinesSites (origins : List Origin) (c : Context) (w : Walk) : List FunctionDecl → List Site
  | [] => []
  | .mk name ps body :: ds =>
    routineSites (.this (.mk name ps body) :: origins) { c with body := methodBody name } w
        (.mk name ps body) ++
      routinesSites origins c (routine { c with body := methodBody name } w (.mk name ps body)) ds

end

def programSites (body : List Stmt) : List Site := stmtsSites [] .program .start body

/-! ### Identities -/

mutual

theorem exprSites_ids (scopes : List Scope) (origins : List Origin) (own : Option String) :
    (e : Expr) → (exprSites scopes origins own e).map Site.id = e.ids
  | .literal _ => rfl
  | .unary _ right => exprSites_ids scopes origins own right
  | .binary left _ right => by
    simp [exprSites, Expr.ids, exprSites_ids scopes origins own left,
      exprSites_ids scopes origins own right]
  | .logical left _ right => by
    simp [exprSites, Expr.ids, exprSites_ids scopes origins own left,
      exprSites_ids scopes origins own right]
  | .group inner => exprSites_ids scopes origins own inner
  | .variable _ _ => rfl
  | .assign _ _ value => by
    simp [exprSites, Expr.ids, exprSites_ids scopes origins own value]
  | .call callee _ arguments => by
    simp [exprSites, Expr.ids, exprSites_ids scopes origins own callee,
      exprsSites_ids scopes origins own arguments]
  | .get object _ => exprSites_ids scopes origins own object
  | .set object _ value => by
    simp [exprSites, Expr.ids, exprSites_ids scopes origins own object,
      exprSites_ids scopes origins own value]
  | .this _ _ => rfl
  | .super _ _ _ => rfl

theorem exprsSites_ids (scopes : List Scope) (origins : List Origin) (own : Option String) :
    (es : List Expr) → (exprsSites scopes origins own es).map Site.id = Expr.idsAll es
  | [] => rfl
  | e :: es => by
    simp [exprsSites, Expr.idsAll, exprSites_ids scopes origins own e,
      exprsSites_ids scopes origins own es]

end

theorem expr?Sites_ids (scopes : List Scope) (origins : List Origin) (own : Option String)
    (o : Option Expr) : (expr?Sites scopes origins own o).map Site.id = Expr.idsOption o := by
  cases o with
  | none => rfl
  | some e => exact exprSites_ids scopes origins own e

mutual

theorem stmtSites_ids (origins : List Origin) (c : Context) (w : Walk) :
    (s : Stmt) → (stmtSites origins c w s).map Site.id = s.ids
  | .expression e => exprSites_ids _ _ _ e
  | .print e => exprSites_ids _ _ _ e
  | .var _ initializer => expr?Sites_ids _ _ _ initializer
  | .block body => stmtsSites_ids _ _ _ body
  | .ite condition thenBranch none => by
    simp [stmtSites, Stmt.ids, exprSites_ids _ _ _ condition, stmtSites_ids _ _ _ thenBranch]
  | .ite condition thenBranch (some elseBranch) => by
    simp [stmtSites, Stmt.ids, exprSites_ids _ _ _ condition, stmtSites_ids _ _ _ thenBranch,
      stmtSites_ids _ _ _ elseBranch]
  | .while condition body => by
    simp [stmtSites, Stmt.ids, exprSites_ids _ _ _ condition, stmtSites_ids _ _ _ body]
  | .break _ => rfl
  | .function (.mk _ _ body) => stmtsSites_ids _ _ _ body
  | .return _ value => expr?Sites_ids _ _ _ value
  | .class _ superclass methods => by
    simp [stmtSites, Stmt.ids, expr?Sites_ids _ _ _ superclass, routinesSites_ids _ _ _ methods]

theorem stmtsSites_ids (origins : List Origin) (c : Context) (w : Walk) :
    (ss : List Stmt) → (stmtsSites origins c w ss).map Site.id = Stmt.idsAll ss
  | [] => rfl
  | s :: ss => by
    simp [stmtsSites, Stmt.idsAll, stmtSites_ids _ _ _ s, stmtsSites_ids _ _ _ ss]

theorem routinesSites_ids (origins : List Origin) (c : Context) (w : Walk) :
    (ds : List FunctionDecl) →
      (routinesSites origins c w ds).map Site.id = FunctionDecl.idsAll ds
  | [] => rfl
  | .mk _ _ body :: ds => by
    simp [routinesSites, routineSites, FunctionDecl.idsAll, FunctionDecl.ids,
      stmtsSites_ids _ _ _ body, routinesSites_ids _ _ _ ds]

end

end Lox.Binding
