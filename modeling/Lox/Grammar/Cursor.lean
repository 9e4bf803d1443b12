import Lox.Grammar.Basic

/-!
# The cursor of a parse

A parse has all tokens at hand and the index of the one to read next. No step goes beyond an end
marker, and where there is none, one is taken to stand behind the tokens.
-/

namespace Lox.Grammar

def missingEnd : Token := ⟨.eof, "", 0⟩

/-- The words that a declaration or statement may start with, as far as resuming goes. -/
def resumesAt (k : Kind) : Bool :=
  [Kind.keyword .class, .keyword .fun, .keyword .var, .keyword .for, .keyword .if, .keyword .while,
    .keyword .print, .keyword .return, .keyword .break].contains k

structure Cursor where
  tokens : Array Token
  /-- The index of the token to read next. -/
  current : Nat
  noted : List Diagnostic
  nextId : NodeId

namespace Cursor

def start (tokens : List Token) (nextId : NodeId) : Cursor := ⟨tokens.toArray, 0, [], nextId⟩

def peek (c : Cursor) : Token := c.tokens.getD c.current missingEnd

def isAtEnd (c : Cursor) : Bool := c.peek.kind == .eof

def advance (c : Cursor) : Cursor := if c.isAtEnd then c else { c with current := c.current + 1 }

/-- The token that was read last, or else the one to read next. -/
def previous (c : Cursor) : Token :=
  match c.current with
  | 0 => c.peek
  | i + 1 => c.tokens.getD i missingEnd

/-- Where there is a token to read next, it is one of the tokens. -/
theorem current_lt {c : Cursor} (more : ¬ c.isAtEnd = true) : c.current < c.tokens.size := by
  refine Nat.lt_of_not_le fun behind => more ?_
  rw [isAtEnd, peek, Array.getD_eq_getD_getElem?, Array.getElem?_eq_none behind]
  rfl

/-- Steps on up to a place where a declaration may start: behind a semicolon or at one of the words
above. -/
def skip (c : Cursor) : Cursor :=
  if c.isAtEnd then c
  else if c.previous.kind = .symbol .semicolon ∨ resumesAt c.peek.kind then c
  else c.advance.skip
termination_by c.tokens.size - c.current
decreasing_by
  rename_i more _
  have inside := current_lt more
  rw [advance, if_neg more]
  exact Nat.sub_succ_lt_self _ _ inside

instance : Reader Cursor where
  peek := peek
  isAtEnd := isAtEnd
  advance := advance
  synchronize c := c.advance.skip
  noted := noted
  note d c := { c with noted := c.noted ++ [d] }
  nextId := nextId
  number c := { c with nextId := c.nextId + 1 }

end Cursor

end Lox.Grammar
