import Lox.Proofs.Grammar.Formed
import Lox.Proofs.Run.ForLoop
import Lox.Proofs.Run.Lexical

/-!
# `for` loops mean what they say

In the reference run no scope comes between the laps of a `for` loop and the scope of its
initializer: they all stand in that one (`Lexical.runFor`). What the parser makes of a `for` loop
does that, and by distances and frames it does the same (`for_direct`).
-/

namespace Lox.Lexical

/-! ### The meaning -/

section Meaning

variable (call : Call)

/-- The scope that the laps stand in. -/
def runInitializer (scope : Scope) : Initializer → Exec Scope
  | .var name value => do
    let scope ← declare scope name.lexeme
    let v ← evaluate? call scope.names value
    define scope name.lexeme v
    return scope
  | .expression e => do
    let _ ← evaluate call scope.names e
    return scope

/-- A missing condition holds. -/
def test (names : Names) : Option Expr → Exec Value
  | none => return .bool true
  | some e => evaluate call names e

def step (names : Names) : Option Expr → Exec Unit
  | none => return ()
  | some e => do
    let _ ← evaluate call names e

/-- The laps of a loop, for at most so many. The increment comes after a body that ends normally,
and after no other. -/
def laps (test : Exec Value) (body : Exec Flow) (step : Exec Unit) : Nat → Exec Flow
  | 0 => throw .outOfFuel
  | bound + 1 => do
    if (← test).isTruthy then
      match ← body with
      | .normal => do
        step
        laps test body step bound
      | .break => return .normal
      | .return v => return .return v
    else return .normal

/-- All laps stand in the same scope. -/
def allLaps (bound : Nat) (scope : Scope) (l : For) : Exec Flow :=
  laps (test call scope.names l.condition) (Prod.fst <$> execute call bound scope l.body)
    (step call scope.names l.increment) bound

/-- What a `for` loop does: the initializer once, in a new scope, and the laps in what it leaves. -/
def runFor (bound : Nat) (scope : Scope) (l : For) : Exec Flow :=
  match l.first with
  | none => allLaps call bound scope l
  | some first => do
    let inner ← runInitializer call ⟨true, scope.names⟩ first
    allLaps call bound inner l

end Meaning

/-! ### Statements that declare nothing -/

section Plain

variable (call : Call) (bound : Nat)

/-- A statement that declares nothing comes to the same at top level and in a local scope, and it
leaves the scope as it is. -/
theorem execute_plain {inLoop : Bool} (scope : Scope) (isLocal : Bool) : (s : Stmt) →
    s.Formed inLoop → s.declares = false →
    execute call bound scope s =
      (fun ended => (ended.1, scope)) <$> execute call bound ⟨isLocal, scope.names⟩ s
  | .expression e, _, _ => by
    simp only [execute, map_bind, map_pure]
  | .print e, _, _ => by
    simp only [execute, map_bind, map_pure]
  | .block body, _, _ => by
    simp only [execute, map_bind, map_pure]
  | .ite condition thenBranch none, formed, _ => by
    simp only [execute, map_bind]
    refine congrArg _ (funext fun v => ?_)
    split
    · exact execute_plain scope isLocal thenBranch formed.1 formed.2
    · rw [map_pure]
  | .ite condition thenBranch (some elseBranch), formed, _ => by
    simp only [execute, map_bind]
    refine congrArg _ (funext fun v => ?_)
    split
    · exact execute_plain scope isLocal thenBranch formed.1.1 formed.1.2
    · exact execute_plain scope isLocal elseBranch formed.2.1 formed.2.2
  | .while condition body, formed, _ => by
    have lap : Prod.fst <$> execute call bound scope body =
        Prod.fst <$> execute call bound ⟨isLocal, scope.names⟩ body := by
      rw [execute_plain scope isLocal body formed.1 formed.2, Functor.map_map]
    simp only [execute, map_bind, map_pure, lap]
  | .break _, _, _ => by
    simp only [execute, map_pure]
  | .return _ value, _, _ => by
    simp only [execute, map_bind, map_pure]

end Plain

/-! ### The statement of the grammar -/

section Statement

variable (call : Call) (bound : Nat)

theorem executeAll_pair (scope : Scope) (s t : Stmt) :
    executeAll call bound scope [s, t] = do
      match ← execute call bound scope s with
      | (.normal, inner) => execute call bound inner t
      | ended => return ended := by
  have last : ∀ inner, executeAll call bound inner [t] = execute call bound inner t := by
    intro inner
    simp only [executeAll]
    conv_rhs => rw [← bind_pure (execute call bound inner t)]
    refine congrArg _ (funext fun ended => ?_)
    obtain ⟨flow, inner'⟩ := ended
    cases flow <;> rfl
  rw [executeAll]
  refine congrArg _ (funext fun ended => ?_)
  obtain ⟨flow, inner⟩ := ended
  cases flow with
  | normal => exact last inner
  | «break» | «return» => rfl

theorem execute_initializer (scope : Scope) (first : Initializer) :
    execute call bound scope first.stmt = do
      let inner ← runInitializer call scope first
      return (.normal, inner) := by
  cases first with
  | var name value =>
    simp only [Initializer.stmt, runInitializer, execute, bind_assoc, pure_bind]
  | expression e =>
    simp only [Initializer.stmt, runInitializer, execute, bind_assoc, pure_bind]

variable {l : For} (formed : l.body.Formed true) (plain : l.body.declares = false)

include formed plain

/-- A lap of the `while` loop that the grammar makes is one of the `for` loop. -/
theorem execute_lap (scope : Scope) :
    Prod.fst <$> execute call bound scope (For.lap l.increment l.body) = do
      match ← Prod.fst <$> execute call bound scope l.body with
      | .normal => do
        step call scope.names l.increment
        return .normal
      | flow => return flow := by
  cases l.increment with
  | none =>
    rw [For.lap, step]
    conv_lhs => rw [← bind_pure (Prod.fst <$> execute call bound scope l.body)]
    refine congrArg _ (funext fun flow => ?_)
    cases flow <;> rfl
  | some e =>
    -- In the block the body is in a local scope, which it cannot tell, as it declares nothing.
    have inner : execute call bound ⟨true, scope.names⟩ l.body =
        (fun ended => (ended.1, ⟨true, scope.names⟩)) <$> execute call bound scope l.body :=
      execute_plain call bound ⟨true, scope.names⟩ scope.isLocal l.body formed plain
    rw [For.lap, execute, executeAll_pair, inner]
    simp only [bind_map_left, map_bind, map_pure, bind_assoc, step]
    refine congrArg _ (funext fun ended => ?_)
    obtain ⟨flow, left⟩ := ended
    cases flow with
    | normal => simp only [execute, bind_assoc, pure_bind]
    | «break» | «return» => rfl

/-- The laps of the `while` loop that the grammar makes are those of the `for` loop. -/
theorem loop_laps (scope : Scope) (rounds : Nat) :
    loop (test call scope.names l.condition)
        (Prod.fst <$> execute call bound scope (For.lap l.increment l.body)) rounds =
      laps (test call scope.names l.condition) (Prod.fst <$> execute call bound scope l.body)
        (step call scope.names l.increment) rounds := by
  rw [execute_lap call bound formed plain]
  induction rounds with
  | zero => rfl
  | succ rounds ih =>
    rw [loop, laps]
    refine congrArg _ (funext fun v => ?_)
    split
    · rw [bind_assoc]
      refine congrArg _ (funext fun flow => ?_)
      cases flow with
      | normal =>
        dsimp only
        rw [bind_assoc]
        exact congrArg _ (funext fun _ => ih)
      | «break» | «return» => rfl
    · rfl

theorem execute_while (scope : Scope) :
    execute call bound scope
        (.while (l.condition.getD (.literal (.bool true))) (For.lap l.increment l.body)) = do
      let flow ← allLaps call bound scope l
      return (flow, scope) := by
  have condition : evaluate call scope.names (l.condition.getD (.literal (.bool true))) =
      test call scope.names l.condition := by
    cases l.condition with
    | none => rfl
    | some e => rfl
  rw [execute, condition, loop_laps call bound formed plain, allLaps]

/-- The statement that the grammar makes of a `for` loop does what the loop means, and leaves the
scope as it is. -/
theorem execute_for (scope : Scope) :
    execute call bound scope l.stmt = do
      let flow ← runFor call bound scope l
      return (flow, scope) := by
  obtain ⟨first, condition, increment, body⟩ := l
  have rounds := fun scope =>
    execute_while (l := ⟨first, condition, increment, body⟩) call bound formed plain scope
  cases first with
  | none => exact rounds scope
  | some first =>
    rw [For.stmt_some, execute, executeAll_pair, execute_initializer, runFor]
    simp only [bind_assoc]
    refine congrArg _ (funext fun inner => ?_)
    rw [pure_bind]
    exact (congrArg (· >>= _) (rounds inner)).trans (by rw [bind_assoc]; rfl)

end Statement

end Lox.Lexical

namespace Lox

open Grammar (Cursor forStatement nested Production Reads)

/-! ### Loops of the grammar -/

theorem Ebnf.Statement.formed {dangling : Prop} {inLoop isOpen : Bool} {ts : List Token} {s : Stmt}
    (derived : Ebnf.Statement dangling inLoop isOpen ts s) :
    s.Formed inLoop ∧ s.declares = false :=
  (Ebnf.forms dangling (ts.length + 1)).statement (Nat.lt_succ_self _) derived

theorem Ebnf.ForInitializer.exists_initializer {ts : List Token} {initializer : Option Stmt}
    (derived : Ebnf.ForInitializer ts initializer) :
    ∃ first : Option Initializer, initializer = first.map Initializer.stmt := by
  cases derived with
  | none => exact ⟨Option.none, rfl⟩
  | var declared =>
    cases declared with
    | bare => exact ⟨some (.var _ Option.none), rfl⟩
    | initialized => exact ⟨some (.var _ (some _)), rfl⟩
  | expression derived =>
    obtain ⟨_, _⟩ := derived
    exact ⟨some (.expression _), rfl⟩

/-- What the parser reads after the word `for` is the statement of a loop. -/
theorem Grammar.reads_for (depth fuel : Nat) :
    Reads (forStatement (nested depth) fuel) fun _ _ s =>
      ∃ l : For, s = l.stmt ∧ l.body.Formed true ∧ l.body.declares = false := by
  apply (Reads.expecting fun _ _ => (reads_forInitializer fuel).bind fun initializer =>
    (reads_optionalExpression fuel _).bind fun condition => Reads.expecting fun _ _ =>
    (reads_optionalExpression fuel _).bind fun increment => Reads.expecting fun _ _ =>
    ((nested_sound depth).statement true).bind fun body => Reads.pure _).mono
  intro _ _ _ derivation
  obtain ⟨_, _, -, -, _, _, _, -, start, _, condition, _, -, -, _, _, -, -, _, increment, _, -, -,
    _, _, -, -, _, body, _, -, ⟨_, derived, -⟩, -, rfl⟩ := derivation
  obtain ⟨first, rfl⟩ := start.exists_initializer
  exact ⟨⟨first, condition, increment, body⟩, rfl, derived.formed⟩

/-- Running the statement of a loop is what the loop means. -/
structure For.Direct (l : For) : Prop where
  /-- By distances and frames. -/
  machine : ∀ fuel bound, execute (invoke fuel) bound l.stmt = l.run (invoke fuel) bound
  /-- By lexical scoping, if the body is one that the grammar allows. -/
  lexical : l.body.Formed true → l.body.declares = false → ∀ call bound scope,
    Lexical.execute call bound scope l.stmt = do
      let flow ← Lexical.runFor call bound scope l
      return (flow, scope)
  /-- All laps are inside the one scope of the initializer, and so are the scopes of the functions
  that they declare. -/
  shared : ∀ first, l.first = some first → ∀ fuel bound m, ∃ own,
    Trace.execute (invoke fuel) Trace.Own bound l.stmt m = ⟨.statement l.stmt, m⟩ :: own ∧
      ∀ k ∈ own, (m.store.frames.size :: m.env) <:+ k.machine.env ∧
        ∀ d, k.event = .statement (.function d) → ∃ id env n,
          (m.store.frames.size :: m.env) <:+ env ∧
          declareFunction d k.machine =
            define d.name.lexeme (.callable (.function id ⟨d, env, false⟩)) n

theorem For.direct (l : For) : l.Direct where
  machine fuel bound := execute_for fuel bound l
  lexical formed plain call bound scope := Lexical.execute_for call bound formed plain scope
  shared first starts fuel bound m := by
    obtain ⟨own, trace, inside⟩ := for_inside fuel bound starts m
    exact ⟨own, trace, fun k mem => ⟨inside k mem, fun d _ =>
      ⟨k.machine.nextIdentity, k.machine.env, _, inside k mem, rfl⟩⟩⟩

/-- Whatever the clauses and the body of a `for` loop are, the statement that stands for it runs as
the loop is meant, and what the parser reads after a word `for` is the statement of a loop. -/
theorem for_direct :
    (∀ l : For, l.Direct) ∧
    ∀ depth fuel (c : Cursor) s c', forStatement (nested depth) fuel c = .ok s c' →
      c'.noted = c.noted →
      ∃ l : For, s = l.stmt ∧ l.body.Formed true ∧ l.body.declares = false := by
  refine ⟨For.direct, fun depth fuel c s c' read silent => ?_⟩
  have left := (Production.forStatement depth fuel).ok_state read
  obtain ⟨-, -, loop⟩ := (Grammar.reads_for depth fuel).derives left silent
  exact loop

/-- `for (var i = true; i; i = false) { fun show() { print i; } }` -/
def showing : For where
  first := some (.var ⟨.identifier, "i", 1⟩ (some (.literal (.bool true))))
  condition := some (.variable 0 ⟨.identifier, "i", 1⟩)
  increment := some (.assign 1 ⟨.identifier, "i", 1⟩ (.literal (.bool false)))
  body := .block [.function
    (.mk ⟨.identifier, "show", 1⟩ [] [.print (.variable 2 ⟨.identifier, "i", 1⟩)])]

theorem for_direct_showing :
    (∃ s c, forStatement (nested 9) 99 (Cursor.start (tokenize
          "(var i = true; i; i = false) \x7b fun show() \x7b print i; \x7d \x7d").1 0) = .ok s c ∧
      ∃ l : For, s = l.stmt ∧ l.body.Formed true ∧ l.body.declares = false) ∧
    (∀ call bound scope, Lexical.execute call bound scope showing.stmt = do
      let flow ← Lexical.runFor call bound scope showing
      return (flow, scope)) ∧
    ∃ own, Trace.execute (invoke 9) Trace.Own 9 showing.stmt (.start [] .unlimited fun _ => 0) =
        ⟨.statement showing.stmt, .start [] .unlimited fun _ => 0⟩ :: own ∧
      ∀ k ∈ own, [1, 0] <:+ k.machine.env := by
  have direct := for_direct.1 showing
  refine ⟨?_, ?_, ?_⟩
  · have clean : (match forStatement (nested 9) 99 (Cursor.start (tokenize
        "(var i = true; i; i = false) \x7b fun show() \x7b print i; \x7d \x7d").1 0) with
      | .ok _ c => c.noted.isEmpty
      | .error _ _ => false) = true := by
      decide +kernel
    cases read : forStatement (nested 9) 99 (Cursor.start (tokenize
        "(var i = true; i; i = false) \x7b fun show() \x7b print i; \x7d \x7d").1 0) with
    | error e c =>
      rw [read] at clean
      cases clean
    | ok s c =>
      rw [read] at clean
      exact ⟨s, c, rfl, for_direct.2 9 99 _ s c read (List.isEmpty_iff.1 clean)⟩
  · exact direct.lexical ⟨⟨trivial, trivial⟩, trivial⟩ rfl
  · obtain ⟨own, trace, inside⟩ := direct.shared _ rfl 9 9 (.start [] .unlimited fun _ => 0)
    have one : (Machine.start [] .unlimited fun _ => 0).store.frames.size = 1 := by decide +kernel
    rw [one] at inside
    exact ⟨own, trace, fun k mem => (inside k mem).1⟩

end Lox
