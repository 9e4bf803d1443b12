import Lox.Grammar.Expression

/-!
# Statements and declarations

The rules for nested statements and nested blocks are parameters of all others; `nested` ties the
knot. A malformed declaration is noted and reading resumes where the next one may start, so that
one pass finds every independent fault.
-/

namespace Lox.Grammar

/-- The two rules that statements nest through. The argument tells whether a loop of the same
function is around. -/
structure Nested (σ : Type) where
  statement : Bool → RuleOf σ Stmt
  block : Bool → RuleOf σ (List Stmt)

section Rules

variable {σ : Type} [Reader σ]

/-- The name, the parameters and the body of a function or method. A loop outside is not a loop
of its body. -/
def routine (r : Routine) (nested : Nested σ) (fuel : Nat) : RuleOf σ FunctionDecl := do
  let name ← expect .identifier (.expectRoutineName r)
  let _ ← expect (.symbol .leftParen) (.expectParameterList r)
  let params ← listed (expect .identifier .expectParameterName) .tooManyParameters fuel
  let _ ← expect (.symbol .rightParen) .expectParametersEnd
  let _ ← expect (.symbol .leftBrace) (.expectRoutineBody r)
  return .mk name params (← nested.block false)

def methods (nested : Nested σ) : Nat → RuleOf σ (List FunctionDecl)
  | 0 => throw .outOfFuel
  | fuel + 1 => do
    if (← sees (.symbol .rightBrace)) || (← atEnd) then return []
    else
      let first ← routine .method nested (fuel + 1)
      return first :: (← methods nested fuel)

def superclass? : RuleOf σ (Option Expr) := do
  if (← accept? (.symbol .less)).isSome then
    let name ← expect .identifier .expectSuperclassName
    return some (.variable (← freshId) name)
  else return none

def classDeclaration (nested : Nested σ) (fuel : Nat) : RuleOf σ Stmt := do
  let name ← expect .identifier .expectClassName
  let superclass ← superclass?
  let _ ← expect (.symbol .leftBrace) .expectClassBody
  let body ← methods nested fuel
  let _ ← expect (.symbol .rightBrace) .expectClassEnd
  return .class name superclass body

def varDeclaration (fuel : Nat) : RuleOf σ Stmt := do
  let name ← expect .identifier .expectVariableName
  let initializer ←
    if (← accept? (.symbol .equal)).isSome then some <$> expression fuel else pure none
  let _ ← expect (.symbol .semicolon) .expectVariableEnd
  return .var name initializer

def expressionStatement (fuel : Nat) : RuleOf σ Stmt := do
  let e ← expression fuel
  let _ ← expect (.symbol .semicolon) .expectExpressionEnd
  return .expression e

/-- An expression, unless the token that would follow it comes at once. -/
def optionalExpression (fuel : Nat) (follower : Kind) : RuleOf σ (Option Expr) := do
  if ← sees follower then return none else some <$> expression fuel

/-- The meaning of a `for` loop: a `while` loop whose body ends with the increment, in a block that
starts with the initializer. A missing condition holds. -/
def forLoop (initializer : Option Stmt) (condition increment : Option Expr) (body : Stmt) : Stmt :=
  let body :=
    match increment with
    | some e => .block [body, .expression e]
    | none => body
  let loop := .while (condition.getD (.literal (.bool true))) body
  match initializer with
  | some s => .block [s, loop]
  | none => loop

def forInitializer (fuel : Nat) : RuleOf σ (Option Stmt) := do
  if (← accept? (.symbol .semicolon)).isSome then return none
  else if (← accept? (.keyword .var)).isSome then some <$> varDeclaration fuel
  else some <$> expressionStatement fuel

def forStatement (nested : Nested σ) (fuel : Nat) : RuleOf σ Stmt := do
  let _ ← expect (.symbol .leftParen) .expectForClauses
  let initializer ← forInitializer fuel
  let condition ← optionalExpression fuel (.symbol .semicolon)
  let _ ← expect (.symbol .semicolon) .expectConditionEnd
  let increment ← optionalExpression fuel (.symbol .rightParen)
  let _ ← expect (.symbol .rightParen) .expectForClausesEnd
  return forLoop initializer condition increment (← nested.statement true)

/-- What follows the word `if`. An `else` belongs to the nearest `if`. -/
def ifStatement (nested : Nested σ) (fuel : Nat) (inLoop : Bool) : RuleOf σ Stmt := do
  let _ ← expect (.symbol .leftParen) .expectIfCondition
  let condition ← expression fuel
  let _ ← expect (.symbol .rightParen) .expectIfConditionEnd
  let thenBranch ← nested.statement inLoop
  let elseBranch ←
    if (← accept? (.keyword .else)).isSome then some <$> nested.statement inLoop else pure none
  return .ite condition thenBranch elseBranch

def whileStatement (nested : Nested σ) (fuel : Nat) : RuleOf σ Stmt := do
  let _ ← expect (.symbol .leftParen) .expectWhileCondition
  let condition ← expression fuel
  let _ ← expect (.symbol .rightParen) .expectWhileConditionEnd
  return .while condition (← nested.statement true)

/-- What follows the word `break`. Outside a loop it is noted and read all the same. -/
def breakStatement (keyword : Token) (inLoop : Bool) : RuleOf σ Stmt := do
  if !inLoop then note keyword .breakOutsideLoop
  let _ ← expect (.symbol .semicolon) .expectBreakEnd
  return .break keyword

def returnStatement (keyword : Token) (fuel : Nat) : RuleOf σ Stmt := do
  let value ← optionalExpression fuel (.symbol .semicolon)
  let _ ← expect (.symbol .semicolon) .expectReturnEnd
  return .return keyword value

def printStatement (fuel : Nat) : RuleOf σ Stmt := do
  let e ← expression fuel
  let _ ← expect (.symbol .semicolon) .expectPrintEnd
  return .print e

/-- The kinds of token that tell a statement from an expression. -/
def statementOpeners : List Kind :=
  [.keyword .for, .keyword .if, .keyword .while, .keyword .break, .keyword .return,
    .symbol .leftBrace, .keyword .print]

def statement (nested : Nested σ) (fuel : Nat) (inLoop : Bool) : RuleOf σ Stmt := do
  match ← acceptAny? statementOpeners with
  | none => expressionStatement fuel
  | some t =>
    match t.kind with
    | .keyword .for => forStatement nested fuel
    | .keyword .if => ifStatement nested fuel inLoop
    | .keyword .while => whileStatement nested fuel
    | .keyword .break => breakStatement t inLoop
    | .keyword .return => returnStatement t fuel
    | .keyword .print => printStatement fuel
    | _ => .block <$> nested.block inLoop

/-- The kinds of token that tell a declaration from a statement. -/
def declarationOpeners : List Kind := [.keyword .class, .keyword .fun, .keyword .var]

def declarationOrFail (nested : Nested σ) (fuel : Nat) (inLoop : Bool) : RuleOf σ Stmt := do
  match ← acceptAny? declarationOpeners with
  | none => statement nested fuel inLoop
  | some t =>
    match t.kind with
    | .keyword .class => classDeclaration nested fuel
    | .keyword .fun => .function <$> routine .function nested fuel
    | _ => varDeclaration fuel

def declaration (nested : Nested σ) (fuel : Nat) (inLoop : Bool) : RuleOf σ (Option Stmt) :=
  tryCatch (some <$> declarationOrFail nested fuel inLoop) fun
    | .fault d => do
      modify fun s => Reader.synchronize (Reader.note d s)
      return none
    | .outOfFuel => throw .outOfFuel

/-- Declarations until the end, or until `closer` is seen. -/
def declarations (closer : Option Kind) (one : RuleOf σ (Option Stmt)) : Nat → RuleOf σ (List Stmt)
  | 0 => throw .outOfFuel
  | fuel + 1 => do
    let closed ← closer.elim (pure false) sees
    if closed || (← atEnd) then return []
    else
      match ← one with
      | some s => return s :: (← declarations closer one fuel)
      | none => declarations closer one fuel

def block (one : RuleOf σ (Option Stmt)) (fuel : Nat) : RuleOf σ (List Stmt) := do
  let body ← declarations (some (.symbol .rightBrace)) one fuel
  let _ ← expect (.symbol .rightBrace) .expectBlockEnd
  return body

/-- Statements and blocks inside at most `fuel` others. -/
def nested : Nat → Nested σ
  | 0 => ⟨fun _ => throw .outOfFuel, fun _ => throw .outOfFuel⟩
  | fuel + 1 =>
    ⟨fun inLoop => statement (nested fuel) (fuel + 1) inLoop,
      fun inLoop => block (declaration (nested fuel) (fuel + 1) inLoop) (fuel + 1)⟩

def program (fuel : Nat) : RuleOf σ (List Stmt) :=
  declarations none (declaration (nested fuel) fuel false) fuel

end Rules

def parse (tokens : List Token) (nextId : NodeId) : Parsed (List Stmt) :=
  Parsed.ofResult (program (tokens.length + 1) (Cursor.start tokens nextId))

end Lox.Grammar
