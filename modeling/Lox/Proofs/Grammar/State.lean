import Lox.Grammar.Statement

/-!
# Tokens that are left

The rules of the grammar on a list of tokens that are left to read, none of them an end marker. What
is read is the head of the list, so that rules are proved by looking at lists. A parse by a cursor
comes to the same (`parse_eq`).
-/

namespace Lox.Grammar

structure State where
  /-- The tokens not yet read. No end marker is among them. -/
  rest : List Token
  /-- What stands at the end. -/
  stop : Token
  noted : List Diagnostic
  nextId : NodeId

namespace State

/-- Tokens count up to the first end marker. -/
def start (tokens : List Token) (nextId : NodeId) : State where
  rest := tokens.takeWhile (·.kind != .eof)
  stop := (tokens.find? (·.kind == .eof)).getD missingEnd
  noted := []
  nextId := nextId

def peek (s : State) : Token := s.rest.headD s.stop

end State

/-- The tokens from the next place where a declaration may start, after a token of the kind
`previous`: behind a semicolon or at one of the words above. -/
def skipFrom (previous : Kind) : List Token → List Token
  | [] => []
  | t :: rest =>
    if previous = .symbol .semicolon ∨ resumesAt t.kind then t :: rest else skipFrom t.kind rest

theorem skipFrom_suffix (previous : Kind) (ts : List Token) : skipFrom previous ts <:+ ts := by
  induction ts generalizing previous with
  | nil => exact List.suffix_refl _
  | cons t rest ih =>
    unfold skipFrom
    split
    · exact List.suffix_refl _
    · exact (ih _).trans (List.suffix_cons _ _)

/-- Where to go on after a fault at the first of these tokens, which is given up in any case. -/
def resume : List Token → List Token
  | [] => []
  | t :: rest => skipFrom t.kind rest

instance : Reader State where
  peek := State.peek
  isAtEnd s := s.rest.isEmpty
  advance s := { s with rest := s.rest.tail }
  synchronize s := { s with rest := resume s.rest }
  noted := State.noted
  note d s := { s with noted := s.noted ++ [d] }
  nextId := State.nextId
  number s := { s with nextId := s.nextId + 1 }

/-- A rule on tokens that are left. -/
abbrev Rule := RuleOf State

theorem Parsed.ofResult_ok {α : Type} (tree : α) (s : State) : Parsed.ofResult (.ok tree s) =
    ⟨if s.noted.isEmpty then .ok tree else .error s.noted, s.nextId⟩ := rfl

@[simp] theorem isAtEnd_eq (s : State) : Reader.isAtEnd s = s.rest.isEmpty := rfl

theorem check_eq (k : Kind) (s : State) :
    Reader.check k s = s.rest.head?.any fun t : Token => t.kind == k := by
  show (!s.rest.isEmpty && (s.rest.headD s.stop).kind == k) = _
  cases s.rest <;> simp

end Lox.Grammar
