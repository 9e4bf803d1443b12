import Lox.Grammar.Cursor

/-!
# Expressions

The rules from loosest to tightest: assignment, which groups to the right; the levels of binary
operators, which group to the left; unary operators; calls and properties; and what stands alone.
The rule for a nested expression is a parameter of all others, and `expression` ties the knot.
-/

namespace Lox.Grammar

structure Level where
  operators : List Kind
  node : Expr → Token → Expr → Expr

/-- The binary operators, loosest first. -/
def levels : List Level :=
  [⟨[.keyword .or], .logical⟩,
    ⟨[.keyword .and], .logical⟩,
    ⟨[.symbol .bangEqual, .symbol .equalEqual], .binary⟩,
    ⟨[.symbol .greater, .symbol .greaterEqual, .symbol .less, .symbol .lessEqual], .binary⟩,
    ⟨[.symbol .minus, .symbol .plus], .binary⟩,
    ⟨[.symbol .star, .symbol .slash], .binary⟩]

section Rules

variable {σ : Type} [Reader σ]

def primary (nested : RuleOf σ Expr) : RuleOf σ Expr := do
  let s ← get
  if Reader.isAtEnd s then fail .expectExpression
  else
    let t := Reader.peek s
    let read : RuleOf σ Unit := modify Reader.advance
    match t.kind with
    | .keyword .false => do read; return .literal (.bool false)
    | .keyword .true => do read; return .literal (.bool true)
    | .keyword .nil => do read; return .literal .nil
    | .number x => do read; return .literal (.number x)
    | .string s => do read; return .literal (.string s)
    | .keyword .super => do
      read
      let _ ← expect (.symbol .dot) .expectSuperDot
      let method ← expect .identifier .expectSuperMethod
      return .super (← freshId) t method
    | .keyword .this => do read; return .this (← freshId) t
    | .identifier => do read; return .variable (← freshId) t
    | .symbol .leftParen => do
      read
      let inner ← nested
      let _ ← expect (.symbol .rightParen) .expectGroupEnd
      return .group inner
    | _ => fail .expectExpression

/-- Any number of calls and properties after `e`. -/
def suffixes (nested : RuleOf σ Expr) : Nat → Expr → RuleOf σ Expr
  | 0, _ => throw .outOfFuel
  | fuel + 1, e => do
    if (← accept? (.symbol .leftParen)).isSome then
      let arguments ← listed nested .tooManyArguments (fuel + 1)
      let paren ← expect (.symbol .rightParen) .expectArgumentsEnd
      suffixes nested fuel (.call e paren arguments)
    else if (← accept? (.symbol .dot)).isSome then
      let name ← expect .identifier .expectPropertyName
      suffixes nested fuel (.get e name)
    else return e

/-- Any number of unary operators, then a primary with its calls and properties. -/
def unary (nested : RuleOf σ Expr) : Nat → RuleOf σ Expr
  | 0 => throw .outOfFuel
  | fuel + 1 => do
    match ← acceptAny? [.symbol .bang, .symbol .minus] with
    | some operator => return .unary operator (← unary nested fuel)
    | none => suffixes nested (fuel + 1) (← primary nested)

/-- Any number of operators of a level after `left`, each with its right operand. -/
def chain (level : Level) (operand : RuleOf σ Expr) : Nat → Expr → RuleOf σ Expr
  | 0, _ => throw .outOfFuel
  | fuel + 1, left => do
    match ← acceptAny? level.operators with
    | some operator => chain level operand fuel (level.node left operator (← operand))
    | none => return left

/-- Operands joined by operators of the given levels. -/
def binary (operand : RuleOf σ Expr) (fuel : Nat) : List Level → RuleOf σ Expr
  | [] => operand
  | level :: tighter => do
    let left ← binary operand fuel tighter
    chain level (binary operand fuel tighter) fuel left

/-- What stands left of an equals sign decides what is assigned to. The value is read in any case,
and a left side that cannot be assigned to is noted and kept. -/
def assignment (nested : RuleOf σ Expr) (fuel : Nat) : RuleOf σ Expr := do
  let target ← binary (unary nested fuel) fuel levels
  match ← accept? (.symbol .equal) with
  | none => return target
  | some equals =>
    let value ← nested
    match target with
    | .variable _ name => return .assign (← freshId) name value
    | .get object name => return .set object name value
    | other =>
      note equals .invalidAssignmentTarget
      return other

def expression : Nat → RuleOf σ Expr
  | 0 => throw .outOfFuel
  | fuel + 1 => assignment (expression fuel) (fuel + 1)

def wholeExpression (fuel : Nat) : RuleOf σ Expr := do
  let e ← expression fuel
  if !(← atEnd) then noteHere .expectEndOfExpression
  return e

end Rules

def parseExpression (tokens : List Token) (nextId : NodeId) : Parsed Expr :=
  Parsed.ofResult (wholeExpression (tokens.length + 1) (Cursor.start tokens nextId))

end Lox.Grammar
