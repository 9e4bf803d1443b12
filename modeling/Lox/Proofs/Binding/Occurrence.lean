import Lox.Proofs.Tree.Shape

/-!
# What the rules are about

The places that the static rules speak of, collected by recursion on the tree: scopes with the names
declared in them, variables with their initializers, `return`, `this`, `super` and classes. Each
comes with the innermost function and the innermost class around it. Nothing here looks at the walk.
-/

namespace Lox

/-- The innermost function around a node. -/
inductive Enclosing
  | function (d : FunctionDecl)
  | method (d : FunctionDecl)

structure ClassDecl where
  name : Token
  superclass : Option Expr
  methods : List FunctionDecl

/-- The innermost function and the innermost class around a node. -/
structure Around where
  routine : Option Enclosing
  family : Option ClassDecl

inductive Occurrence
  /-- A block, or the parameters and the body of a function, with the names declared in it. -/
  | scope (names : List Token)
  /-- A variable of a local scope that has an initializer. -/
  | variable (name : Token) (initializer : Expr)
  | return (keyword : Token) (value : Option Expr)
  | this (id : NodeId) (keyword : Token)
  | super (id : NodeId) (keyword method : Token)
  | class (name : Token) (superclass : Option Expr)

mutual

/-- The names that an expression reads. What it assigns to is not read. -/
def Expr.reads : Expr → List String
  | .literal _ => []
  | .unary _ right => right.reads
  | .binary left _ right => left.reads ++ right.reads
  | .logical left _ right => left.reads ++ right.reads
  | .group inner => inner.reads
  | .variable _ name => [name.lexeme]
  | .assign _ _ value => value.reads
  | .call callee _ arguments => callee.reads ++ Expr.readsAll arguments
  | .get object _ => object.reads
  | .set object _ value => object.reads ++ value.reads
  | .this _ _ => []
  | .super _ _ _ => []

def Expr.readsAll : List Expr → List String
  | [] => []
  | e :: es => e.reads ++ Expr.readsAll es

end

/-- The name that a statement declares in the scope that it stands in. -/
def Stmt.declared? : Stmt → Option Token
  | .var name _ => some name
  | .function d => some d.name
  | .class name _ _ => some name
  | _ => none

/-- The names that statements declare in the scope that they stand in. -/
def Stmt.names (body : List Stmt) : List Token := body.filterMap Stmt.declared?

/-! ### Occurrences -/

mutual

def Expr.occurrences (a : Around) : Expr → List (Around × Occurrence)
  | .literal _ => []
  | .unary _ right => right.occurrences a
  | .binary left _ right => left.occurrences a ++ right.occurrences a
  | .logical left _ right => left.occurrences a ++ right.occurrences a
  | .group inner => inner.occurrences a
  | .variable _ _ => []
  | .assign _ _ value => value.occurrences a
  | .call callee _ arguments => callee.occurrences a ++ Expr.occurrencesAll a arguments
  | .get object _ => object.occurrences a
  | .set object _ value => object.occurrences a ++ value.occurrences a
  | .this id keyword => [(a, .this id keyword)]
  | .super id keyword method => [(a, .super id keyword method)]

def Expr.occurrencesAll (a : Around) : List Expr → List (Around × Occurrence)
  | [] => []
  | e :: es => e.occurrences a ++ Expr.occurrencesAll a es

end

def Expr.occurrencesOption (a : Around) : Option Expr → List (Around × Occurrence)
  | none => []
  | some e => e.occurrences a

mutual

/-- What occurs in a statement that stands in a local scope or at top level. -/
def Stmt.occurrences (a : Around) (isLocal : Bool) : Stmt → List (Around × Occurrence)
  | .expression e => e.occurrences a
  | .print e => e.occurrences a
  | .var _ none => []
  | .var name (some e) => (if isLocal then [(a, .variable name e)] else []) ++ e.occurrences a
  | .block body => (a, .scope (Stmt.names body)) :: Stmt.occurrencesAll a true body
  | .ite condition thenBranch none => condition.occurrences a ++ thenBranch.occurrences a isLocal
  | .ite condition thenBranch (some elseBranch) =>
    condition.occurrences a ++
      (thenBranch.occurrences a isLocal ++ elseBranch.occurrences a isLocal)
  | .while condition body => condition.occurrences a ++ body.occurrences a isLocal
  | .break _ => []
  | .function d => d.occurrences ⟨some (.function d), a.family⟩
  | .return keyword value => (a, .return keyword value) :: Expr.occurrencesOption a value
  | .class name superclass methods =>
    (a, .class name superclass) :: (Expr.occurrencesOption a superclass ++
      FunctionDecl.occurrencesAll ⟨name, superclass, methods⟩ methods)

def Stmt.occurrencesAll (a : Around) (isLocal : Bool) : List Stmt → List (Around × Occurrence)
  | [] => []
  | s :: ss => s.occurrences a isLocal ++ Stmt.occurrencesAll a isLocal ss

/-- What occurs in the parameters and the body of a function, which share one scope. -/
def FunctionDecl.occurrences (a : Around) : FunctionDecl → List (Around × Occurrence)
  | .mk _ params body =>
    (a, .scope (params ++ Stmt.names body)) :: Stmt.occurrencesAll a true body

/-- What occurs in the methods of a class. -/
def FunctionDecl.occurrencesAll (family : ClassDecl) :
    List FunctionDecl → List (Around × Occurrence)
  | [] => []
  | d :: ds =>
    d.occurrences ⟨some (.method d), some family⟩ ++ FunctionDecl.occurrencesAll family ds

end

theorem Stmt.occurrences_subset {a : Around} {isLocal : Bool} {ss : List Stmt} {s : Stmt}
    (inside : s ∈ ss) : s.occurrences a isLocal ⊆ Stmt.occurrencesAll a isLocal ss := by
  induction ss with
  | nil => exact absurd inside List.not_mem_nil
  | cons t ss ih =>
    rcases List.mem_cons.1 inside with rfl | later
    · exact List.subset_append_left _ _
    · exact List.Subset.trans (ih later) (List.subset_append_right _ _)

/-- What occurs in a program: around it are neither functions nor classes. -/
def programOccurrences (program : List Stmt) : List (Around × Occurrence) :=
  Stmt.occurrencesAll ⟨none, none⟩ false program

end Lox
