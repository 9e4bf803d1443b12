import Lox.Token

/-!
# Trees

Expressions, statements and declarations. Every node that names a binding carries an identity, by
which the distances of `Lox.Binding` are looked up.
-/

namespace Lox

/-- Identity of a node that names a binding. -/
abbrev NodeId := Nat

inductive Literal
  | nil
  | bool (b : Bool)
  | number (x : Float)
  | string (s : String)
  deriving DecidableEq

inductive Expr
  | literal (value : Literal)
  | unary (operator : Token) (right : Expr)
  | binary (left : Expr) (operator : Token) (right : Expr)
  /-- Both sides are evaluated only if the left one does not decide. -/
  | logical (left : Expr) (operator : Token) (right : Expr)
  | group (inner : Expr)
  | variable (id : NodeId) (name : Token)
  | assign (id : NodeId) (name : Token) (value : Expr)
  /-- The closing parenthesis is where a call reports its faults. -/
  | call (callee : Expr) (paren : Token) (arguments : List Expr)
  | get (object : Expr) (name : Token)
  | set (object : Expr) (name : Token) (value : Expr)
  | this (id : NodeId) (keyword : Token)
  | super (id : NodeId) (keyword : Token) (method : Token)

mutual

inductive Stmt
  | expression (e : Expr)
  | print (e : Expr)
  | var (name : Token) (initializer : Option Expr)
  | block (body : List Stmt)
  | ite (condition : Expr) (thenBranch : Stmt) (elseBranch : Option Stmt)
  | while (condition : Expr) (body : Stmt)
  | break (keyword : Token)
  | function (declaration : FunctionDecl)
  | return (keyword : Token) (value : Option Expr)
  | class (name : Token) (superclass : Option Expr) (methods : List FunctionDecl)

/-- A function or method: its name, its parameters and its body. -/
inductive FunctionDecl
  | mk (name : Token) (params : List Token) (body : List Stmt)

end

namespace FunctionDecl

def name : FunctionDecl → Token
  | mk name _ _ => name

def params : FunctionDecl → List Token
  | mk _ params _ => params

def body : FunctionDecl → List Stmt
  | mk _ _ body => body

def arity (d : FunctionDecl) : Nat := d.params.length

end FunctionDecl

/-- The method that a call of its class runs. -/
def initializerName : String := "init"

end Lox
