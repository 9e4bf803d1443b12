import Lox.Fault
import Lox.Tree

/-!
# Where names are bound

One walk over a program finds, for every node that names a binding, how many scopes out the
binding lives, and every misplaced name or jump. The scopes of the walk are the ones that a run
opens: a block, the parameters and body of a function, the scope of `super` around the methods of
a class with a superclass, and the scope of `this` around the methods of any class. Names at top
level are in no scope and are looked up when they are used.
-/

namespace Lox.Binding

/-- The names declared in a scope, the latest first, and whether each is defined yet. -/
abbrev Scope := List (String × Bool)

/-- The innermost function around a node. -/
inductive Body
  | topLevel | function | initializer | method
  deriving DecidableEq

/-- The innermost class around a node: none, one without a superclass or one with. -/
inductive Family
  | none | base | derived
  deriving DecidableEq

/-- What is around a node, apart from scopes. -/
structure Context where
  body : Body
  family : Family

structure Walk where
  /-- The open scopes, the innermost first. -/
  scopes : List Scope
  /-- The distances of the nodes that are bound in a scope, the latest first. -/
  records : List (NodeId × Nat)
  faults : List Diagnostic

namespace Walk

def start : Walk := ⟨[], [], []⟩

def openScope (w : Walk) (scope : Scope) : Walk := { w with scopes := scope :: w.scopes }

def closeScope (w : Walk) : Walk := { w with scopes := w.scopes.tail }

def fault (w : Walk) (place : Token) (cause : BindingFault) : Walk :=
  { w with faults := w.faults ++ [.binding place cause] }

/-- Adds a name to the innermost scope, not defined yet. A second declaration is a fault. -/
def declare (w : Walk) (name : Token) : Walk :=
  match w.scopes with
  | [] => w
  | scope :: outer =>
    if (scope.lookup name.lexeme).isSome then w.fault name .alreadyDeclared
    else { w with scopes := ((name.lexeme, false) :: scope) :: outer }

/-- From here on the name may be read. -/
def define (w : Walk) (name : Token) : Walk :=
  match w.scopes with
  | [] => w
  | scope :: outer => { w with scopes := ((name.lexeme, true) :: scope) :: outer }

/-- How many scopes out the name is declared. -/
def distance? (w : Walk) (name : String) : Option Nat :=
  w.scopes.findIdx? fun scope => (scope.lookup name).isSome

/-- Records the distance of a node; one that is bound in no scope is left to the top level. -/
def refer (w : Walk) (id : NodeId) (name : String) : Walk :=
  match w.distance? name with
  | some distance => { w with records := (id, distance) :: w.records }
  | none => w

/-- Whether the innermost scope declares the name and has not defined it yet. -/
def isPending (w : Walk) (name : String) : Bool :=
  match w.scopes with
  | [] => false
  | scope :: _ => scope.lookup name == some false

end Walk

def this (c : Context) (w : Walk) (id : NodeId) (keyword : Token) : Walk :=
  match c.family with
  | .none => w.fault keyword .thisOutsideClass
  | _ => w.refer id keyword.lexeme

def super (c : Context) (w : Walk) (id : NodeId) (keyword : Token) : Walk :=
  let w :=
    match c.family with
    | .none => w.fault keyword .superOutsideClass
    | .base => w.fault keyword .superWithoutSuperclass
    | .derived => w
  w.refer id keyword.lexeme

mutual

/-- The names that an expression uses, in the order in which they are looked at: the value of a
property before its object. -/
def expr (c : Context) (w : Walk) : Expr → Walk
  | .literal _ => w
  | .unary _ right => expr c w right
  | .binary left _ right => expr c (expr c w left) right
  | .logical left _ right => expr c (expr c w left) right
  | .group inner => expr c w inner
  | .variable id name =>
    let w := if w.isPending name.lexeme then w.fault name .readInOwnInitializer else w
    w.refer id name.lexeme
  | .assign id name value => (expr c w value).refer id name.lexeme
  | .call callee _ arguments => exprs c (expr c w callee) arguments
  | .get object _ => expr c w object
  | .set object _ value => expr c (expr c w value) object
  | .this id keyword => this c w id keyword
  | .super id keyword _ => super c w id keyword

def exprs (c : Context) (w : Walk) : List Expr → Walk
  | [] => w
  | e :: es => exprs c (expr c w e) es

end

def expr? (c : Context) (w : Walk) : Option Expr → Walk
  | none => w
  | some e => expr c w e

/-- The scope that a run opens for `this`. -/
def thisScope : Scope := [("this", true)]

/-- The scope that a run opens for `super`. -/
def superScope : Scope := [("super", true)]

def methodBody (name : Token) : Body :=
  if name.lexeme == initializerName then .initializer else .method

/-- The checks on a `return`, in order. -/
def checkReturn (c : Context) (w : Walk) (keyword : Token) (hasValue : Bool) : Walk :=
  let w := if c.body = .topLevel then w.fault keyword .returnAtTopLevel else w
  if hasValue ∧ c.body = .initializer then w.fault keyword .returnValueFromInitializer else w

/-- A class that is its own superclass. -/
def checkSuperclass (w : Walk) (name : Token) : Expr → Walk
  | .variable _ superclass =>
    if superclass.lexeme == name.lexeme then w.fault superclass .inheritsFromItself else w
  | _ => w

def params (w : Walk) (names : List Token) : Walk :=
  names.foldl (fun w name => (w.declare name).define name) w

/-! ### The pass over a program -/

/-- The walk in the middle of a program. What is around the node at hand is set where a function or
a class begins, and set back where it ends. -/
structure Pass where
  walk : Walk
  around : Context

namespace Pass

def expr (p : Pass) (e : Expr) : Pass := { p with walk := Binding.expr p.around p.walk e }

def expr? (p : Pass) (o : Option Expr) : Pass := { p with walk := Binding.expr? p.around p.walk o }

def openScope (p : Pass) (scope : Scope) : Pass := { p with walk := p.walk.openScope scope }

def closeScope (p : Pass) : Pass := { p with walk := p.walk.closeScope }

def declare (p : Pass) (name : Token) : Pass := { p with walk := p.walk.declare name }

def define (p : Pass) (name : Token) : Pass := { p with walk := p.walk.define name }

/-- The superclass, and the scope of `super` around the methods. -/
def superclass (p : Pass) (name : Token) : Option Expr → Pass
  | none => p
  | some e =>
    let p := { p with walk := checkSuperclass p.walk name e, around.family := .derived }
    (p.expr e).openScope superScope

mutual

def stmt (p : Pass) : Stmt → Pass
  | .expression e => p.expr e
  | .print e => p.expr e
  | .var name initializer => ((p.declare name).expr? initializer).define name
  | .block body => (stmts (p.openScope []) body).closeScope
  | .ite condition thenBranch none => stmt (p.expr condition) thenBranch
  | .ite condition thenBranch (some elseBranch) =>
    stmt (stmt (p.expr condition) thenBranch) elseBranch
  | .while condition body => stmt (p.expr condition) body
  | .break _ => p
  | .function (.mk name ps body) =>
    routine ((p.declare name).define name) .function (.mk name ps body)
  | .return keyword value =>
    { p with walk := checkReturn p.around p.walk keyword value.isSome }.expr? value
  | .class name superclass methods =>
    let enclosing := p.around.family
    let p := ({ p with around.family := .base }.declare name).define name
    let p := (p.superclass name superclass).openScope thisScope
    let p := (routines p methods).closeScope
    let p := if superclass.isSome then p.closeScope else p
    { p with around.family := enclosing }

def stmts (p : Pass) : List Stmt → Pass
  | [] => p
  | s :: ss => stmts (stmt p s) ss

/-- The parameters and the body of a function share one scope. -/
def routine (p : Pass) (body : Body) : FunctionDecl → Pass
  | .mk _ ps statements =>
    let enclosing := p.around.body
    let p := { p with around.body := body }.openScope []
    let p := (stmts { p with walk := params p.walk ps } statements).closeScope
    { p with around.body := enclosing }

def routines (p : Pass) : List FunctionDecl → Pass
  | [] => p
  | .mk name ps body :: ds => routines (routine p (methodBody name) (.mk name ps body)) ds

end

end Pass

/-- Around a whole program there is neither a function nor a class. -/
def Context.program : Context := ⟨.topLevel, .none⟩

def program (body : List Stmt) : Walk := (Pass.stmts ⟨.start, .program⟩ body).walk

end Lox.Binding
