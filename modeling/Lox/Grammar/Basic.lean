import Lox.Fault
import Lox.Tree

/-!
# Reading tokens

The steps that every rule of the grammar is made of. A rule either yields a tree, or gives up on the
construct it is in with one diagnostic. Faults that do not confuse the reading are only noted.
-/

namespace Lox.Grammar

/-- What the rules of the grammar read from. -/
class Reader (σ : Type) where
  /-- The token to read next, at the end the end marker. -/
  peek : σ → Token
  isAtEnd : σ → Bool
  /-- Steps over the token to read next, if there is one. -/
  advance : σ → σ
  /-- Goes on where the next declaration may start, behind the token to read next in any case. -/
  synchronize : σ → σ
  /-- The faults noted so far, in order. -/
  noted : σ → List Diagnostic
  note : Diagnostic → σ → σ
  /-- The identity of the next node that names a binding. -/
  nextId : σ → NodeId
  number : σ → σ

inductive Failure
  | fault (d : Diagnostic)
  /-- The bound on the depth was too small; one more than the number of tokens suffices. -/
  | outOfFuel

/-- A rule of the grammar. What it has read stays read when it gives up. -/
abbrev RuleOf (σ : Type) := EStateM Failure σ

section Rules

variable {σ : Type} [Reader σ]

open Reader

/-- Whether the token to read next is of this kind. At the end there is none. -/
def Reader.check (k : Kind) (s : σ) : Bool := !isAtEnd s && (peek s).kind == k

def atEnd : RuleOf σ Bool := return isAtEnd (← get)

def sees (k : Kind) : RuleOf σ Bool := return check k (← get)

/-- Reads the next token if it is of one of these kinds. -/
def acceptAny? (kinds : List Kind) : RuleOf σ (Option Token) := do
  let s ← get
  if kinds.any (check · s) then
    modify advance
    return some (peek s)
  else return none

def accept? (k : Kind) : RuleOf σ (Option Token) := acceptAny? [k]

def fail {α : Type} (cause : SyntaxFault) : RuleOf σ α := do
  throw (.fault (.grammatical (peek (← get)) cause))

def expect (k : Kind) (cause : SyntaxFault) : RuleOf σ Token := do
  match ← accept? k with
  | some t => return t
  | none => fail cause

def note (place : Token) (cause : SyntaxFault) : RuleOf σ Unit :=
  modify (Reader.note (.grammatical place cause))

def noteHere (cause : SyntaxFault) : RuleOf σ Unit := do note (peek (← get)) cause

def freshId : RuleOf σ NodeId := do
  let s ← get
  set (number s)
  return nextId s

/-- Arguments and parameters beyond this many are noted as faults. -/
def mostArguments : Nat := 255

/-- One item or more, a comma between two of them; `count` items came before. -/
def commaSeparated {α : Type} (item : RuleOf σ α) (excess : SyntaxFault) (count : Nat) :
    Nat → RuleOf σ (List α)
  | 0 => throw .outOfFuel
  | fuel + 1 => do
    if mostArguments ≤ count then noteHere excess
    let first ← item
    if (← accept? (.symbol .comma)).isSome then
      return first :: (← commaSeparated item excess (count + 1) fuel)
    else return [first]

/-- The items up to a closing parenthesis, possibly none. -/
def listed {α : Type} (item : RuleOf σ α) (excess : SyntaxFault) (fuel : Nat) :
    RuleOf σ (List α) := do
  if ← sees (.symbol .rightParen) then return [] else commaSeparated item excess 0 fuel

/-- What a parse comes to: a tree or every fault in the order it was found, and the first identity
that it left unused. -/
structure Parsed (α : Type) where
  result : Except (List Diagnostic) α
  nextId : NodeId

/-- A tree counts only if no fault was noted on the way. -/
def Parsed.ofResult {α : Type} : EStateM.Result Failure σ α → Parsed α
  | .ok tree s => ⟨if (noted s).isEmpty then .ok tree else .error (noted s), Reader.nextId s⟩
  | .error (.fault d) s => ⟨.error (noted s ++ [d]), Reader.nextId s⟩
  | .error .outOfFuel s => ⟨.error (noted s), Reader.nextId s⟩

end Rules

end Lox.Grammar
