import Lox.Proofs.Grammar.Cursor
import Lox.Proofs.Grammar.Progress.Statement

/-!
# Loops

A loop of the parser is a rule that is given how many turns it may take. Its turn, as a function of
the turns behind it, either ends the loop or has moved the cursor by the time the next turn starts
(`loops_advance`).
-/

namespace Lox.Grammar

open EStateM (Result)

/-! ### Moving on -/

/-- The depth did not run out, the cursor did not go back, and success moved it by at least
`taken`. -/
def Moves {α : Type} (taken : Nat) (c : Cursor) : Result Failure Cursor α → Prop
  | .ok _ d => c.current + taken ≤ d.current
  | .error (.fault _) d => c.current ≤ d.current
  | .error .outOfFuel _ => False

theorem Shows.moved {tokens : Array Token} {last : Nat} {c d : Cursor} {s t : State}
    (h : Shows tokens last c s) (taken : Nat) (h' : Shows tokens last d t)
    (advanced : t.rest.length + taken ≤ s.rest.length) : c.current + taken ≤ d.current := by
  have left : d.left.length + taken ≤ c.left.length := by
    obtain rfl := h.state
    obtain rfl := h'.state
    exact advanced
  have same : d.current + d.left.length = c.current + c.left.length := h'.last.trans h.last.symm
  omega

/-- What advances on the tokens that are left moves the cursor. -/
theorem Production.moves {α : Type} {rule : ∀ {σ : Type} [Reader σ], RuleOf σ α}
    (h : Production @rule) {taken : Nat} {c : Cursor}
    (advances : Advances taken c.state (rule c.state)) : Moves taken c (rule c) := by
  have together := h.shown c
  generalize rule c = r at together ⊢
  generalize rule c.state = r' at together advances
  cases together with
  | ok a shown => exact c.shows.moved taken shown advances
  | error e shown =>
    cases e with
    | fault d => exact c.shows.moved 0 shown advances
    | outOfFuel => exact advances

/-! ### Turns -/

/-- One turn at a cursor: whatever comes behind it, it ends the loop, or it moves the cursor, leaves
the rest to the next turn and puts (`f`) what it has read to what that yields. -/
inductive Turn {α : Type} (turn : RuleOf Cursor α → RuleOf Cursor α) (c : Cursor) : Prop
  | ends {r : Result Failure Cursor α} (same : ∀ next, turn next c = r) (moves : Moves 0 c r)
  | takes {f : α → α} {d : Cursor} (moved : c.current < d.current)
      (same : ∀ next, turn next c = (f <$> next) d)

/-- A loop is its turn before `behind`, and a turn ends the loop or moves the cursor while fewer
than `bound` tokens are left. -/
def TurnsAdvance {α : Type} (bound : Nat) (loop behind : Nat → RuleOf Cursor α)
    (turn : Nat → RuleOf Cursor α → RuleOf Cursor α) : Prop :=
  ∀ turns, loop (turns + 1) = turn turns (behind turns) ∧
    ∀ c : Cursor, c.left.length < bound → bound ≤ turns + 1 → Turn (turn turns) c

/-! ### Declarations -/

theorem turn_declarations {closer : Option Kind} {one : RuleOf Cursor (Option Stmt)} {c : Cursor}
    (h : ¬ c.isAtEnd = true → Moves 1 c (one c) ∧ ∃ o d, one c = .ok o d) :
    Turn (declarationsTurn closer one) c := by
  by_cases ended : (closer.any (Reader.check · c)) || Reader.isAtEnd c
  · exact .ends (declarationsTurn_ended ended) (Nat.le_refl _)
  · obtain ⟨moves, o, d, run⟩ := h fun empty =>
      ended (Bool.or_eq_true_iff.2 (.inr empty))
    rw [run] at moves
    exact .takes moves (declarationsTurn_goes ended run)

/-! ### Methods -/

def methodsTurn (nested : Nested Cursor) (fuel : Nat) (next : RuleOf Cursor (List FunctionDecl)) :
    RuleOf Cursor (List FunctionDecl) := do
  if (← sees (.symbol .rightBrace)) || (← atEnd) then return []
  else
    let first ← routine .method nested fuel
    return first :: (← next)

theorem turn_methods {n : Nested Cursor} {fuel : Nat} {c : Cursor}
    (moves : Moves 1 c (routine .method n fuel c)) : Turn (methodsTurn n fuel) c := by
  have looked : ∀ next, methodsTurn n fuel next c =
      (if Reader.check (.symbol .rightBrace) c || c.isAtEnd then
        return []
      else do
        let first ← routine .method n fuel
        return first :: (← next) : RuleOf Cursor (List FunctionDecl)) c := fun _ => rfl
  split at looked
  · exact .ends looked (Nat.le_refl _)
  · cases run : routine .method n fuel c with
    | error e t =>
      rw [run] at moves
      refine .ends (r := .error e t) (fun next => (looked next).trans (bind_of_error run)) ?_
      cases e with
      | fault => exact moves
      | outOfFuel => exact moves.elim
    | ok d t =>
      rw [run] at moves
      refine .takes (f := (d :: ·)) (d := t) moves fun next => ?_
      rw [looked, bind_of_ok run]
      exact congrFun (bind_pure_comp (d :: ·) next) t

/-! ### Items -/

def itemsTurn {α : Type} (item : RuleOf Cursor α) (excess : SyntaxFault) (count : Nat)
    (next : RuleOf Cursor (List α)) : RuleOf Cursor (List α) := do
  if mostArguments ≤ count then noteHere excess
  let first ← item
  if (← accept? (.symbol .comma)).isSome then return first :: (← next) else return [first]

theorem turn_items {α : Type} {item : RuleOf Cursor α} {bound : Nat}
    (h : ∀ m : Cursor, m.left.length < bound → Moves 1 m (item m)) (excess : SyntaxFault)
    (count : Nat) {c : Cursor} (room : c.left.length < bound) :
    Turn (itemsTurn item excess count) c := by
  -- An item too many is noted, which does not move the cursor.
  obtain ⟨m, left, here, noted⟩ : ∃ m : Cursor, m.left = c.left ∧ m.current = c.current ∧
      ∀ next, itemsTurn item excess count next c =
        (item >>= fun first => acceptAny? [.symbol .comma] >>=
          fun o => if o.isSome then (do return first :: (← next)) else return [first]) m := by
    by_cases many : mostArguments ≤ count
    · refine ⟨Reader.note (.grammatical c.peek excess) c, rfl, rfl, fun next => ?_⟩
      rw [itemsTurn, if_pos many]
      rfl
    · refine ⟨c, rfl, rfl, fun next => ?_⟩
      rw [itemsTurn, if_neg many]
      rfl
  have moves := h m (by rwa [left])
  cases run : item m with
  | error e t =>
    rw [run] at moves
    refine .ends (r := .error e t) (fun next => (noted next).trans (bind_of_error run)) ?_
    cases e with
    | fault =>
      have moved : m.current ≤ t.current := moves
      show c.current ≤ t.current
      exact here ▸ moved
    | outOfFuel => exact moves.elim
  | ok first t =>
    rw [run] at moves
    have moved : c.current + 1 ≤ t.current := here ▸ moves
    cases seen : Reader.check (.symbol .comma) t with
    | false =>
      have refused : acceptAny? [.symbol .comma] t = .ok none t := by
        rw [acceptAny?, get_bind, List.any_cons, List.any_nil, seen]
        rfl
      refine .ends (r := .ok [first] t) (fun next => ?_) (Nat.le_of_succ_le moved)
      rw [noted, bind_of_ok run, bind_of_ok refused]
      rfl
    | true =>
      have accepted : acceptAny? [.symbol .comma] t = .ok (some t.peek) t.advance := by
        rw [acceptAny?, get_bind, List.any_cons, List.any_nil, seen]
        rfl
      refine .takes (f := (first :: ·)) (d := t.advance)
        (Nat.lt_of_lt_of_le moved t.le_advance) fun next => ?_
      rw [noted, bind_of_ok run, bind_of_ok accepted]
      exact congrFun (bind_pure_comp (first :: ·) next) t.advance

/-! ### All loops -/

/-- Every turn of every loop ends the loop or moves the cursor, at any depth of nesting that is
enough for fewer than `bound` tokens. -/
structure LoopsAdvance (bound depth : Nat) : Prop where
  topLevel : ∀ fuel, bound ≤ fuel + 1 →
    let one : RuleOf Cursor (Option Stmt) := declaration (nested depth) (fuel + 1) false
    TurnsAdvance bound (declarations none one) (declarations none one)
      fun _ => declarationsTurn none one
  block : ∀ fuel inLoop, bound ≤ fuel + 1 →
    let one : RuleOf Cursor (Option Stmt) := declaration (nested depth) (fuel + 1) inLoop
    TurnsAdvance bound (declarations (some (.symbol .rightBrace)) one)
      (declarations (some (.symbol .rightBrace)) one)
      fun _ => declarationsTurn (some (.symbol .rightBrace)) one
  classBody : TurnsAdvance bound (methods (nested depth)) (methods (nested depth))
    fun turns => methodsTurn (nested depth) (turns + 1)
  arguments : ∀ count, TurnsAdvance bound
    (commaSeparated (expression depth) .tooManyArguments count)
    (commaSeparated (expression depth) .tooManyArguments (count + 1))
    fun _ => itemsTurn (expression depth) .tooManyArguments count
  parameters : ∀ count, TurnsAdvance bound
    (commaSeparated (expect .identifier .expectParameterName) .tooManyParameters count)
    (commaSeparated (expect .identifier .expectParameterName) .tooManyParameters (count + 1))
    fun _ => itemsTurn (expect .identifier .expectParameterName) .tooManyParameters count
  recovery : ∀ c : Cursor, c.skip = c ∨
    c.current < c.advance.current ∧ c.skip = c.advance.skip

theorem nested_settles {bound depth depth' : Nat} (enough : bound ≤ depth)
    (enough' : bound ≤ depth') : (nested depth).Settles bound (nested depth') := by
  induction bound generalizing depth depth' with
  | zero => exact ⟨fun _ => .none, fun _ => .none⟩
  | succ bound ih =>
    obtain ⟨depth, rfl⟩ := Nat.exists_eq_add_one_of_ne_zero (n := depth) (by omega)
    obtain ⟨depth', rfl⟩ := Nat.exists_eq_add_one_of_ne_zero (n := depth') (by omega)
    have less : bound ≤ depth := Nat.le_of_succ_le_succ enough
    have less' : bound ≤ depth' := Nat.le_of_succ_le_succ enough'
    have inner := ih less less'
    refine ⟨fun inLoop => settles_statement inner less less' inLoop, fun inLoop => ?_⟩
    let one : Rule (Option Stmt) := declaration (nested depth) (depth + 1) inLoop
    let one' : Rule (Option Stmt) := declaration (nested depth') (depth' + 1) inLoop
    have body : Settles (bound + 1) 0
        (declarations (some (.symbol .rightBrace)) one (depth + 1))
        (declarations (some (.symbol .rightBrace)) one' (depth' + 1)) := fun s room =>
      (settles_declarations
        (fun s room more => settles_declaration inner less less' inLoop room more) enough enough'
        room).1
    exact body.bind (n := 1) (fun _ => .expecting fun _ _ => .pure _) (Nat.le_refl _)

theorem skip_turn (c : Cursor) : c.skip = c ∨
    c.current < c.advance.current ∧ c.skip = c.advance.skip := by
  rw [Cursor.skip]
  split
  · exact .inl rfl
  · next more =>
    split
    · exact .inl rfl
    · refine .inr ⟨?_, rfl⟩
      rw [Cursor.advance, if_neg more]
      exact Nat.lt_succ_self _

/-- A declaration comes to something and moves the cursor, if there is a token to read next. -/
theorem declaration_moves {bound depth fuel : Nat} (deep : bound ≤ depth)
    (enough : bound ≤ fuel + 1) (inLoop : Bool) {c : Cursor} (room : c.left.length < bound)
    (more : ¬ c.isAtEnd = true) :
    Moves 1 c (declaration (nested depth) (fuel + 1) inLoop c) ∧
      ∃ o d, declaration (nested depth) (fuel + 1) inLoop c = .ok o d := by
  obtain ⟨bound, rfl⟩ := Nat.exists_eq_add_one_of_ne_zero (Nat.ne_zero_of_lt room)
  have rest : c.state.rest ≠ [] := fun empty => more (c.isAtEnd_state ▸ List.isEmpty_iff.2 empty)
  obtain ⟨⟨-, advances⟩, o, t, run⟩ := settles_declaration
    ((nested_settles deep deep).mono (Nat.le_succ _)) (Nat.le_of_succ_le_succ enough)
    (Nat.le_of_succ_le_succ enough) inLoop room rest
  have production := Production.declaration depth (fuel + 1) inLoop
  have together := production.shown c
  refine ⟨production.moves advances, ?_⟩
  rw [run] at together
  generalize declaration (nested depth) (fuel + 1) inLoop c = r at together ⊢
  cases together with
  | ok o _ => exact ⟨o, _, rfl⟩

theorem loops_advance {bound depth : Nat} (enough : bound ≤ depth) : LoopsAdvance bound depth where
  topLevel _ fuelled _ :=
    ⟨rfl, fun _ room _ => turn_declarations (declaration_moves enough fuelled false room)⟩
  block _ inLoop fuelled _ :=
    ⟨rfl, fun _ room _ => turn_declarations (declaration_moves enough fuelled inLoop room)⟩
  classBody turns := ⟨rfl, fun c room fuelled => turn_methods <|
    (Production.routine .method depth (turns + 1)).moves <|
      (settles_routine (nested_settles enough enough) fuelled fuelled .method c.state room).advances⟩
  arguments count _ := ⟨rfl, fun _ room _ => turn_items (fun m room =>
    (Production.expression depth).moves (settles_expression enough enough m.state room).advances)
    .tooManyArguments count room⟩
  parameters count _ := ⟨rfl, fun _ room _ => turn_items (fun m room =>
    (Production.expect .identifier .expectParameterName).moves
      (Settles.expect .identifier .expectParameterName m.state room).advances)
    .tooManyParameters count room⟩
  recovery := skip_turn

end Lox.Grammar
