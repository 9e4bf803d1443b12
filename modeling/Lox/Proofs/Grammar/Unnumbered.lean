import Lox.Tree

/-!
# Trees up to identities

Two trees are the same up to the identities of their nodes if they agree once every identity is
wiped out.
-/

namespace Lox

mutual

/-- The expression with all its nodes numbered 0. -/
def Expr.unnumbered : Expr → Expr
  | .literal value => .literal value
  | .unary operator right => .unary operator right.unnumbered
  | .binary left operator right => .binary left.unnumbered operator right.unnumbered
  | .logical left operator right => .logical left.unnumbered operator right.unnumbered
  | .group inner => .group inner.unnumbered
  | .variable _ name => .variable 0 name
  | .assign _ name value => .assign 0 name value.unnumbered
  | .call callee paren arguments => .call callee.unnumbered paren (Expr.unnumberedAll arguments)
  | .get object name => .get object.unnumbered name
  | .set object name value => .set object.unnumbered name value.unnumbered
  | .this _ keyword => .this 0 keyword
  | .super _ keyword method => .super 0 keyword method

def Expr.unnumberedAll : List Expr → List Expr
  | [] => []
  | e :: es => e.unnumbered :: Expr.unnumberedAll es

end

mutual

/-- The statement with all its nodes numbered 0. -/
def Stmt.unnumbered : Stmt → Stmt
  | .expression e => .expression e.unnumbered
  | .print e => .print e.unnumbered
  | .var name initializer => .var name (initializer.map Expr.unnumbered)
  | .block body => .block (Stmt.unnumberedAll body)
  | .ite condition thenBranch none => .ite condition.unnumbered thenBranch.unnumbered none
  | .ite condition thenBranch (some elseBranch) =>
    .ite condition.unnumbered thenBranch.unnumbered (some elseBranch.unnumbered)
  | .while condition body => .while condition.unnumbered body.unnumbered
  | .break keyword => .break keyword
  | .function d => .function d.unnumbered
  | .return keyword value => .return keyword (value.map Expr.unnumbered)
  | .class name superclass methods =>
    .class name (superclass.map Expr.unnumbered) (FunctionDecl.unnumberedAll methods)

def Stmt.unnumberedAll : List Stmt → List Stmt
  | [] => []
  | s :: ss => s.unnumbered :: Stmt.unnumberedAll ss

def FunctionDecl.unnumbered : FunctionDecl → FunctionDecl
  | .mk name params body => .mk name params (Stmt.unnumberedAll body)

def FunctionDecl.unnumberedAll : List FunctionDecl → List FunctionDecl
  | [] => []
  | d :: ds => d.unnumbered :: FunctionDecl.unnumberedAll ds

end

end Lox
