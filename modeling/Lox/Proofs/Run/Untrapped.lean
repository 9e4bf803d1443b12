import Lox.Proofs.Grammar.Checked
import Lox.Proofs.Run.Dispatch
import Lox.Proofs.Run.History
import Lox.Proofs.Run.Trapped
import Lox.Proofs.Run.Upkeep

/-!
# Steps that miss the traps

No step of the evaluator takes frames or objects away (`Stable Grows`). An operator of the grammar,
a method of a superclass that can be taken and the name of a class in the scope of its statement
come to the same with traps and without.
-/

namespace Lox

instance : Stable Grows where
  refl := .refl
  trans := .trans
  within inner := ⟨rfl, inner.store⟩
  identity m := ⟨rfl, .refl m.store⟩
  print m _ := ⟨rfl, .refl m.store⟩
  child m env := ⟨rfl, .child m.store env⟩
  put m frame name v := ⟨rfl, .put m.store frame name v⟩
  allocate m := ⟨rfl, .allocate m.store⟩
  setField m o name v := ⟨rfl, .setField m.store o name v⟩
  native op receiver arguments m := by
    cases lists : op.ofLists with
    | false =>
      have elsewhere := Native.run_elsewhere lists receiver arguments m
      revert elsewhere
      cases op.run receiver arguments m with
      | ok v n | error cause n =>
        rintro (⟨store, env, -⟩ | ⟨store, env, -⟩)
        exact ⟨env, store ▸ .refl m.store⟩
    | true =>
    cases receiver with
    | none =>
      rw [Native.run_unbound lists arguments m]
      exact .refl m
    | some o =>
      obtain ⟨call, same⟩ := Native.run_call lists arguments
      rw [same o m]
      have confined := Native.run_confined o call m
      rw [confined.store]
      exact ⟨rfl, Nat.le_of_eq (congrArg Array.size confined.frames.symm),
        Nat.le_of_eq confined.size.symm⟩

/-- The innermost scope is there. -/
def Rooted (m : Machine) : Prop :=
  ∃ frame outer, m.env = frame :: outer ∧ frame < m.store.frames.size

theorem Rooted.later {m n : Machine} (h : Rooted m) (grows : Grows m n) : Rooted n := by
  obtain ⟨frame, outer, env, inside⟩ := h
  exact ⟨frame, outer, grows.env.trans env, Nat.lt_of_lt_of_le inside grows.store.frames⟩

namespace Trapped

/-! ### Traps that are cleared -/

/-- A value, or a fault of the operands. -/
inductive Operable : Except RuntimeFault Value → Prop
  | ok (v : Value) : Operable (.ok v)
  | operand : Operable (.error .operandNotNumber)
  | operands : Operable (.error .operandsNotNumbers)
  | summands : Operable (.error .operandsNotAddable)

theorem operable_unary {operator : Token} (known : operator.kind ∈ Grammar.unaryOperators)
    (v : Value) : Operable (v.applyUnary operator) := by
  simp only [Grammar.unaryOperators, List.mem_cons, List.not_mem_nil, or_false] at known
  unfold Value.applyUnary
  obtain bang | minus := known
  · rw [bang]
    exact .ok _
  · rw [minus]
    cases v with
    | number x => exact .ok _
    | nil | bool | string | callable | «instance» => exact .operand

theorem operable_add (v w : Value) : Operable (v.add w) := by
  unfold Value.add
  split
  · exact .ok _
  · exact .ok _
  · exact .summands

theorem operable_numeric {operator : Token} (known : operator.kind ∈ Grammar.binaryOperators)
    (equality : operator.kind ≠ .symbol .equalEqual)
    (inequality : operator.kind ≠ .symbol .bangEqual)
    (sum : operator.kind ≠ .symbol .plus) (x y : Float) :
    Operable (Value.applyNumeric operator x y) := by
  unfold Value.applyNumeric
  split
  iterate 7 exact .ok _
  simp_all [Grammar.binaryOperators, Ebnf.Precedence.operators]

theorem operable_binary {operator : Token} (known : operator.kind ∈ Grammar.binaryOperators)
    (v w : Value) : Operable (v.applyBinary operator w) := by
  unfold Value.applyBinary
  split
  · exact .ok _
  · exact .ok _
  · exact operable_add v w
  · next equality inequality sum =>
    split
    · exact operable_numeric known equality inequality sum _ _
    · exact .operands

/-- A method that was taken did not fail before it was looked for. -/
theorem taken_orFail {α : Type} {m : Machine} {classes : List Class} {c : Class} {o : ObjectId}
    {method : Token} {line : Nat} {cause : RuntimeFault} {a? : Option α} {f : α → Eval Value}
    (taken : Taken m classes c o method ((orFail line cause a? >>= f) m))
    (other : ∀ x, cause ≠ .undefinedProperty x) :
    ∃ a, a? = some a ∧ Taken m classes c o method (f a m) := by
  cases a? with
  | none =>
    have failed : Taken m classes c o method (.error (.error (.program line cause)) m) := taken
    cases failed
    exact absurd rfl (other _)
  | some a => exact ⟨a, rfl, taken⟩

section Steps

variable (trap : Trap)

theorem orFault_cleared (line : Nat) {r : Except RuntimeFault Value} (h : Operable r) :
    orFault trap line r = Lox.orFault line r := by
  cases h <;> rfl

theorem superMethod_cleared {id : NodeId} {keyword method : Token} {m : Machine}
    {classes : List Class} {c : Class} {o : ObjectId}
    (taken : Taken m classes c o method (Lox.superMethod id keyword method m)) :
    superMethod trap id keyword method m = Lox.superMethod id keyword method m := by
  rw [superMethod_run] at taken
  obtain ⟨distance, recorded, taken⟩ := taken_orFail taken nofun
  obtain ⟨v, bound, taken⟩ := taken_orFail taken nofun
  obtain ⟨superclass, is, taken⟩ := taken_orFail taken nofun
  obtain ⟨receiver, found, -⟩ := taken_orFail taken nofun
  simp only [superMethod, Hooks.superMethod, hooks, Hooks.plain, Lox.superMethod, Grammar.get_bind,
    recorded, bound, is, found, orTrap, orFail, pure_bind]
  rfl

theorem owner?_innermost {s : Store} {frame : FrameId} {x : String} {v : Value}
    (bound : s.getHere? frame x = some v) (outer : Env) :
    s.owner? (frame :: outer) x = some frame :=
  List.find?_cons_of_pos (Option.isSome_of_eq_some bound)

theorem assignClass_cleared {name : Token} {m : Machine} {frame : FrameId}
    (owner : m.store.owner? m.env name.lexeme = some frame) (c : Class) :
    assignClass trap name c m = Lox.assignClass name c m := by
  simp only [assignClass, Lox.assignClass, Grammar.get_bind, owner]

theorem methodEnv_bound {m : Machine} {frame : FrameId} {x : String} {v : Value}
    (bound : m.store.getHere? frame x = some v) (parent : Option Class) :
    ∃ env n, methodEnv parent m = .ok env n ∧ n.env = m.env ∧
      n.store.getHere? frame x = some v := by
  cases parent with
  | none => exact ⟨m.env, m, rfl, rfl, bound⟩
  | some c =>
    refine ⟨_, _, rfl, rfl, ?_⟩
    refine (getHere?_child_put m.store m.env "super" _ frame x).trans ?_
    rw [if_neg fun new => Nat.ne_of_lt (lt_size_of_getHere? bound) new.1, bound]

/-- The name of a class is bound in the innermost scope before the class is made. -/
theorem declared_cleared {m : Machine} (rooted : Rooted m) (name : Token) (parent : Option Class)
    (make : Env → Identity → Class) :
    (do
      define name.lexeme .nil
      let env ← methodEnv parent
      assignClass trap name (make env (← freshIdentity)) : Eval Unit) m =
    (do
      define name.lexeme .nil
      let env ← methodEnv parent
      Lox.assignClass name (make env (← freshIdentity)) : Eval Unit) m := by
  obtain ⟨frame, outer, env, inside⟩ := rooted
  have defined : define name.lexeme .nil m =
      .ok () (m.mapStore (·.put frame name.lexeme .nil)) := by
    simp only [define, Grammar.get_bind, env]
    rfl
  have bound : (m.store.put frame name.lexeme .nil).getHere? frame name.lexeme = some .nil := by
    rw [m.store.getHere?_put _ _ _ _ _ inside, if_pos ⟨rfl, rfl⟩]
  obtain ⟨inner, n, opened, same, bound⟩ :=
    methodEnv_bound (m := m.mapStore (·.put frame name.lexeme .nil)) bound parent
  rw [Grammar.bind_of_ok defined, Grammar.bind_of_ok defined, Grammar.bind_of_ok opened,
    Grammar.bind_of_ok opened]
  have owner : n.store.owner? n.env name.lexeme = some frame := by
    rw [same.trans env]
    exact owner?_innermost bound outer
  exact assignClass_cleared trap (m := { n with nextIdentity := n.nextIdentity + 1 }) owner _

end Steps

end Trapped

end Lox
