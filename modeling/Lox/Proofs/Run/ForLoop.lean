import Lox.Proofs.Grammar.Reading
import Lox.Proofs.Run.Moments
import Lox.Proofs.Run.Steady

/-!
# Running `for` loops

What a `for` loop means, told without blocks and `while` loops (`For.run`), and that the statement
which the grammar makes of it does just that (`execute_for`). All of its laps are run inside the one
scope that was opened for the initializer (`for_inside`).
-/

namespace Lox

open EStateM (Result)
open Trace (silent)

/-- What a `for` loop may start with. -/
inductive Initializer
  | var (name : Token) (value : Option Expr)
  | expression (e : Expr)

def Initializer.stmt : Initializer → Stmt
  | .var name value => .var name value
  | .expression e => .expression e

structure For where
  first : Option Initializer
  condition : Option Expr
  increment : Option Expr
  body : Stmt

/-- The statement that the grammar makes of the loop. -/
def For.stmt (l : For) : Stmt :=
  Grammar.forLoop (l.first.map Initializer.stmt) l.condition l.increment l.body

theorem For.stmt_some (first : Initializer) (condition increment : Option Expr) (body : Stmt) :
    For.stmt ⟨some first, condition, increment, body⟩ = .block [first.stmt,
      .while (condition.getD (.literal (.bool true))) (match increment with
        | some e => .block [body, .expression e]
        | none => body)] :=
  rfl

/-! ### The meaning -/

def Initializer.run (call : Invoke) : Initializer → Eval Unit
  | .var name value => do
    let v ← evaluate? call value
    define name.lexeme v
  | .expression e => do
    let _ ← evaluate call e

namespace For

/-- A missing condition holds. -/
def test (call : Invoke) : Option Expr → Eval Value
  | none => return .bool true
  | some e => evaluate call e

def step (call : Invoke) : Option Expr → Eval Unit
  | none => return ()
  | some e => do
    let _ ← evaluate call e

/-- The scopes of a lap. Where there is an increment, a scope is opened in which neither the body
nor the increment declares anything. -/
def enter : Option Expr → Eval Env
  | none => return (← get).env
  | some _ => Trace.blockEnv

/-- The laps of a loop, for at most so many. The increment comes after a body that ends normally,
and after no other. -/
def laps (enter : Eval Env) (test : Eval Value) (body : Eval Flow) (step : Eval Unit) :
    Nat → Eval Flow
  | 0 => throw .outOfFuel
  | bound + 1 => do
    if (← test).isTruthy then
      let env ← enter
      match ← within env body with
      | .normal => do
        within env step
        laps enter test body step bound
      | .break => return .normal
      | .return v => return .return v
    else return .normal

def allLaps (call : Invoke) (bound : Nat) (l : For) : Eval Flow :=
  laps (enter l.increment) (test call l.condition) (execute call bound l.body)
    (step call l.increment) bound

/-- What the loop does: the initializer once, in a new scope, and the laps inside of it. -/
def run (call : Invoke) (bound : Nat) (l : For) : Eval Flow :=
  match l.first with
  | none => allLaps call bound l
  | some first => do
    let env ← Trace.blockEnv
    within env do
      first.run call
      allLaps call bound l

end For

/-! ### Blocks -/

section Within

variable {α β : Type}

theorem within_apply (env : Env) (x : Eval α) (m : Machine) :
    within env x m = match x { m with env } with
      | .ok a n => .ok a { n with env := m.env }
      | .error e n => .error e { n with env := m.env } := rfl

/-- The scopes are put back in between, and taken again. -/
theorem within_bind {x : Eval α} (kept : Restores x) (env : Env) (f : α → Eval β) :
    within env (x >>= f) = within env x >>= fun a => within env (f a) := by
  funext m
  have same := kept { m with env }
  cases ran : x { m with env } with
  | error e n =>
    have left : within env (x >>= f) m = .error e { n with env := m.env } := by
      rw [within_apply, Grammar.bind_of_error ran]
    have right : within env x m = .error e { n with env := m.env } := by rw [within_apply, ran]
    rw [left, Grammar.bind_of_error right]
  | ok a n =>
    rw [ran] at same
    obtain rfl : n.env = env := same
    have right : within n.env x m = .ok a { n with env := m.env } := by rw [within_apply, ran]
    rw [within_apply, Grammar.bind_of_ok ran, Grammar.bind_of_ok right, within_apply]

theorem within_pure (env : Env) (a : α) : within env (pure a) = pure a := rfl

/-- To run in the scopes at hand changes nothing. -/
theorem within_here {x : Eval α} (kept : Restores x) (m : Machine) : within m.env x m = x m := by
  have same := kept m
  show (match x m with
    | .ok a n => Result.ok a { n with env := m.env }
    | .error e n => .error e { n with env := m.env }) = x m
  cases ran : x m with
  | ok a n | error e n =>
    rw [ran] at same
    have same : n.env = m.env := same
    dsimp only
    rw [← same]

end Within

/-! ### Single statements -/

section Statements

variable (call : Invoke) (bound : Nat)

theorem executeAll_nil : executeAll call bound [] = return .normal := by
  rw [executeAll]

theorem executeAll_cons (s : Stmt) (ss : List Stmt) :
    executeAll call bound (s :: ss) = do
      match ← execute call bound s with
      | .normal => executeAll call bound ss
      | flow => return flow :=
  executeAll.eq_2 call bound s ss

theorem executeAll_singleton (s : Stmt) : executeAll call bound [s] = execute call bound s := by
  rw [executeAll_cons, executeAll_nil]
  conv_rhs => rw [← bind_pure (execute call bound s)]
  refine congrArg _ (funext fun flow => ?_)
  cases flow <;> rfl

theorem execute_block (body : List Stmt) :
    execute call bound (.block body) = (do
      let env ← Trace.blockEnv
      within env (executeAll call bound body)) := by
  rw [execute, Trace.blockEnv, bind_assoc]

theorem execute_expression (e : Expr) :
    execute call bound (.expression e) = do
      let _ ← evaluate call e
      return .normal := by
  rw [execute]

theorem execute_initializer (first : Initializer) :
    execute call bound first.stmt = do
      first.run call
      return .normal := by
  cases first with
  | var name value =>
    simp only [Initializer.stmt, Initializer.run, execute, bind_assoc]
  | expression e =>
    simp only [Initializer.stmt, Initializer.run, execute, bind_assoc, pure_bind]

end Statements

/-! ### The statement of the grammar -/

section Runs

variable (fuel bound : Nat)

theorem evaluate_restores (e : Expr) : Restores (evaluate (invoke fuel) e) := fun m =>
  (evaluate_follows (S := Steady) (invoke_follows fuel) e m).env

theorem evaluateAll_restores (es : List Expr) : Restores (evaluateAll (invoke fuel) es) := fun m =>
  (evaluateAll_follows (S := Steady) (invoke_follows fuel) es m).env

theorem execute_restores (s : Stmt) : Restores (execute (invoke fuel) bound s) := fun m =>
  (execute_follows (S := Steady) (invoke_follows fuel) bound s m).env

namespace For

/-- The body of the `while` loop that the grammar makes. -/
def lap (increment : Option Expr) (body : Stmt) : Stmt :=
  match increment with
  | some e => .block [body, .expression e]
  | none => body

/-- A lap of the `while` loop is one of the `for` loop. -/
theorem execute_lap (increment : Option Expr) (body : Stmt) :
    execute (invoke fuel) bound (lap increment body) = do
      let env ← enter increment
      match ← within env (execute (invoke fuel) bound body) with
      | .normal => do
        within env (step (invoke fuel) increment)
        return .normal
      | flow => return flow := by
  have kept := execute_restores fuel bound body
  -- Without an increment the lap is the body, in the scopes at hand. With one the two stand in a
  -- block, and `within_bind` takes its scopes once for each.
  cases increment with
  | none =>
    funext m
    have entered : enter none m = .ok m.env m := rfl
    rw [Grammar.bind_of_ok entered]
    have here := within_here kept m
    cases ran : execute (invoke fuel) bound body m with
    | error e n =>
      rw [ran] at here
      rw [Grammar.bind_of_error here]
      exact ran
    | ok flow n =>
      rw [ran] at here
      rw [Grammar.bind_of_ok here]
      cases flow with
      | normal | «break» | «return» => exact ran
  | some e =>
    rw [lap, execute_block, enter]
    refine congrArg _ (funext fun env => ?_)
    rw [executeAll_cons, within_bind kept]
    refine congrArg _ (funext fun flow => ?_)
    cases flow with
    | normal =>
      have evaluated := evaluate_restores fuel e
      simp only [executeAll_cons, execute_expression, executeAll_nil, step, bind_assoc, pure_bind,
        within_bind evaluated, within_pure]
    | «break» | «return» => rfl

/-- The laps of the `while` loop are those of the `for` loop. -/
theorem loop_laps (l : For) (rounds : Nat) :
    loop (test (invoke fuel) l.condition) (execute (invoke fuel) bound (lap l.increment l.body))
        rounds =
      laps (enter l.increment) (test (invoke fuel) l.condition) (execute (invoke fuel) bound l.body)
        (step (invoke fuel) l.increment) rounds := by
  rw [execute_lap]
  induction rounds with
  | zero => rfl
  | succ rounds ih =>
    rw [loop, laps]
    refine congrArg _ (funext fun v => ?_)
    split
    · rw [bind_assoc]
      refine congrArg _ (funext fun env => ?_)
      rw [bind_assoc]
      refine congrArg _ (funext fun flow => ?_)
      cases flow with
      | normal =>
        dsimp only
        rw [bind_assoc]
        exact congrArg _ (funext fun _ => ih)
      | «break» | «return» => rfl
    · rfl

/-- The `while` loop that the grammar makes. -/
theorem execute_while (l : For) :
    execute (invoke fuel) bound
        (.while (l.condition.getD (.literal (.bool true))) (lap l.increment l.body)) =
      allLaps (invoke fuel) bound l := by
  have condition : evaluate (invoke fuel) (l.condition.getD (.literal (.bool true))) =
      test (invoke fuel) l.condition := by
    cases l.condition with
    | none => rfl
    | some e => rfl
  rw [execute, condition, loop_laps, allLaps]

/-- The statement that the grammar makes of a `for` loop does what the loop means. -/
theorem execute_for (l : For) : execute (invoke fuel) bound l.stmt = l.run (invoke fuel) bound := by
  obtain ⟨first, condition, increment, body⟩ := l
  have rounds := execute_while fuel bound ⟨first, condition, increment, body⟩
  cases first with
  | none => exact rounds
  | some first =>
    rw [stmt_some, execute_block, run]
    refine congrArg _ (funext fun env => congrArg (within env) ?_)
    rw [executeAll_cons, execute_initializer, bind_assoc]
    refine congrArg _ (funext fun _ => ?_)
    rw [pure_bind]
    exact (executeAll_singleton _ _ _).trans rounds

end For

end Runs

/-! ### The scopes of the laps -/

/-- All moments are in the scopes at hand or in scopes inside of these. -/
def Nests (t : Trace) : Prop := ∀ m, ∀ k ∈ t m, m.env <:+ k.machine.env

namespace Nests

variable {α : Type} {t : Trace}

theorem silent : Nests Trace.silent := fun _ _ mem => absurd mem List.not_mem_nil

theorem mark (event : Act) (h : Nests t) : Nests (Trace.mark event t) := fun m =>
  List.forall_mem_cons.2 ⟨List.suffix_refl _, h m⟩

theorem bind {x : Eval α} {next : α → Trace} (first : Nests t) (kept : Restores x)
    (second : ∀ a, Nests (next a)) : Nests (t.bind x next) := by
  intro m k mem
  have same := kept m
  cases ran : x m with
  | error e n =>
    rw [Trace.bind_of_error ran] at mem
    exact first m k mem
  | ok a n =>
    rw [Trace.bind_of_ok ran] at mem
    rw [ran] at same
    obtain before | after := List.mem_append.1 mem
    · exact first m k before
    · have same : n.env = m.env := same
      exact same ▸ second a n k after

/-- The moments of a block are in one new scope, the same for all. -/
theorem in_block (h : Nests t) (m : Machine) :
    ∀ k ∈ (Trace.silent.bind Trace.blockEnv fun env => t.within env) m,
      (m.store.frames.size :: m.env) <:+ k.machine.env :=
  h { (m.withStore (·.child m.env)).2 with env := m.store.frames.size :: m.env }

theorem block (h : Nests t) : Nests (Trace.silent.bind Trace.blockEnv fun env => t.within env) :=
  fun m k mem => (List.suffix_cons _ _).trans (h.in_block m k mem)

end Nests

/-- The moments of calls are left out. -/
def Trace.Own : Trace.OfCalls := fun _ _ _ => silent

section Own

variable (fuel : Nat)

theorem nests_closed : Trace.Closed (invoke fuel) Trace.Own (fun x => Restores x) Nests where
  silent := .silent
  expression _ _ h := h.mark _
  statement _ _ h := h.mark _
  output _ := Nests.silent.mark _
  bind first kept second := first.bind kept second
  block h := h.block
  calls _ _ _ _ := .silent
  evaluated := evaluate_restores fuel
  allEvaluated := evaluateAll_restores fuel
  executed := execute_restores fuel

variable (bound : Nat)

theorem block_inside (body : List Stmt) (m : Machine) :
    ∃ own, Trace.execute (invoke fuel) Trace.Own bound (.block body) m =
        ⟨.statement (.block body), m⟩ :: own ∧
      ∀ k ∈ own, (m.store.frames.size :: m.env) <:+ k.machine.env := by
  rw [Trace.execute]
  exact ⟨_, rfl, ((nests_closed fuel).executeAll bound body).in_block m⟩

/-- What a loop does with its own hands, in whichever lap, it does inside the one scope that was
opened for the initializer. -/
theorem for_inside {l : For} {first : Initializer} (starts : l.first = some first) (m : Machine) :
    ∃ own, Trace.execute (invoke fuel) Trace.Own bound l.stmt m = ⟨.statement l.stmt, m⟩ :: own ∧
      ∀ k ∈ own, (m.store.frames.size :: m.env) <:+ k.machine.env := by
  obtain ⟨_, condition, increment, body⟩ := l
  obtain rfl := starts
  exact block_inside fuel bound _ m

end Own

end Lox
