import Lox.Proofs.Run.History
import Lox.Proofs.Session.Upright

/-!
# Lists in sessions

An instance of `List` or of a class below it is a sequence: each call of its methods is answered as
one of a sequence, and nothing else changes its elements (`lists_are_sequences`).
-/

namespace Lox

open EStateM (Result)

/-! ### Methods of lists -/

/-- No class on the way up from `c` has a method of its own in place of one of lists. -/
def Unhidden (c : Class) (name : String) : Prop :=
  ∀ k ∈ c.upward, k.methods.lookup name = none ∨ k = Native.listClass

theorem Native.listClass_lookup (call : ListCall) :
    Native.listClass.methods.lookup call.name = some (.native call.routine) := by
  cases call <;> rfl

theorem findMethod?_list (call : ListCall) : (c : Class) → Native.listClass ∈ c.upward →
    Unhidden c call.name → c.findMethod? call.name = some (.native call.routine)
  | ⟨_, _, none, _⟩, list, _ => by
    rw [← List.mem_singleton.1 list]
    exact Native.listClass_lookup call
  | ⟨id, name, some above, methods⟩, list, unhidden => by
    have other : (⟨id, name, some above, methods⟩ : Class) ≠ Native.listClass := nofun
    obtain ⟨here, up⟩ := List.forall_mem_cons.1 unhidden
    rw [Class.findMethod?, here.resolve_right other]
    exact findMethod?_list call above (List.mem_of_ne_of_mem other.symm list) up

/-- The result of a call that was answered. -/
def answered (paren : Token) : Except NativeFault Value → Machine → Result Halt Machine Value
  | .ok v, n => .ok v n
  | .error cause, n => .error (.error (.program paren.line (.native cause))) n

theorem answered_inj {paren : Token} {answer answer' : Except NativeFault Value} {n n' : Machine}
    (same : answered paren answer n = answered paren answer' n') : answer = answer' ∧ n = n' := by
  cases answer <;> cases answer' <;> cases same <;> exact ⟨rfl, rfl⟩

theorem callNative_answered {op : Native} {receiver : Option ObjectId} {arguments : List Value}
    {answer : Except NativeFault Value} {m n : Machine}
    (ran : op.run receiver arguments m = Native.respond answer n) (paren : Token) :
    callNative op receiver arguments paren m = answered paren answer n := by
  unfold callNative
  rw [ran]
  cases answer <;> rfl

/-! ### One list -/

/-- The object is a sequence, as far as methods of lists go, at this machine and from here on. -/
structure IsSequence (m : Machine) (c : Class) (o : ObjectId) : Prop where
  /-- A method that neither a field nor a class on the way up hides has the list as its receiver. -/
  taken : ∀ (call : ListCall) (name : Token), name.lexeme = call.name →
    m.store.field? o call.name = none → Unhidden c call.name →
    getProperty c o name m = .ok (.callable (.native m.nextIdentity call.routine (some o)))
      { m with nextIdentity := m.nextIdentity + 1 }
  /-- A call gives the answer and leaves the sequence that there are for it. -/
  called : ∀ fuel id (call : ListCall) paren answer after,
    Answers (m.store.sequence o) call answer after ↔
      ∃ n, invoke (fuel + 1) (.native id call.routine (some o)) call.arguments paren m =
        answered paren answer n ∧ n.store.sequence o = after
  /-- A call that fails changes nothing, and no call anything but this list. -/
  refused : ∀ fuel id (call : ListCall) paren cause n,
    invoke (fuel + 1) (.native id call.routine (some o)) call.arguments paren m =
      answered paren (.error cause) n → n = m
  confined : ∀ fuel id (call : ListCall) paren, Native.Confined o m
    (final (invoke (fuel + 1) (.native id call.routine (some o)) call.arguments paren m))
  /-- Calls one after the other, with whatever leaves the elements in between. -/
  plays : ∀ entries n, Lived o m entries n →
    Plays (m.store.slots o).toList entries (n.store.slots o).toList
  /-- There is nothing else that a program, or a part of it, makes of the list. -/
  evaluated : ∀ fuel e, Outlives o m (final (evaluate (invoke fuel) e m))
  executed : ∀ fuel laps s, Outlives o m (final (execute (invoke fuel) laps s m))
  invoked : ∀ fuel callee arguments paren, Outlives o m (final (invoke fuel callee arguments paren m))
  texts : ∀ fuel source,
    Outlives o m (m.run fuel source).2 ∧ Outlives o m (m.evaluate fuel source).2

theorem Outlives.runProgram (o : ObjectId) (m : Machine) (fuel : Nat) (program : List Stmt) :
    Outlives o m (m.runProgram fuel program).2 := by
  have bound : Outlives o m (m.bind program).2 := .other rfl (Nat.le_refl _)
  unfold Machine.runProgram
  dsimp only
  split
  · rw [ofResult_thenFlush]
    exact bound.trans (runAll_follows fuel program _)
  · exact bound

theorem Outlives.runText (o : ObjectId) (m : Machine) (fuel : Nat) (source : String) :
    Outlives o m (m.run fuel source).2 := by
  have read : Outlives o m { m with nextNode := (compile source m.nextNode).nextId } :=
    .other rfl (Nat.le_refl _)
  unfold Machine.run
  dsimp only
  cases (compile source m.nextNode).result with
  | error faults => exact read
  | ok program => exact read.trans (.runProgram o _ fuel program)

theorem Outlives.evaluateText (o : ObjectId) (m : Machine) (fuel : Nat) (source : String) :
    Outlives o m (m.evaluate fuel source).2 := by
  have read : Outlives o m { m with nextNode := (compileExpression source m.nextNode).nextId } :=
    .other rfl (Nat.le_refl _)
  unfold Machine.evaluate
  dsimp only
  cases (compileExpression source m.nextNode).result with
  | error faults => exact read
  | ok e =>
    refine read.trans ?_
    show Outlives o _ (Outcome.ofResult _).2
    rw [ofResult_final]
    exact evaluate_follows (invoke_follows fuel) e _

theorem isSequence {m : Machine} {c : Class} {o : ObjectId} (inside : o < m.store.objects.size)
    (list : Native.listClass ∈ c.upward) : IsSequence m c o where
  taken call name same absent unhidden := by
    rw [getProperty, Grammar.get_bind, same]
    simp only [absent, findMethod?_list call c list unhidden]
    rfl
  called fuel id call paren answer after := by
    obtain ⟨answer', n', served⟩ := Native.served inside call
    have ran := callNative_answered served.ran paren
    constructor
    · intro answers
      obtain ⟨rfl, rfl⟩ := answers.unique served.answers
      exact ⟨n', ran, rfl⟩
    · rintro ⟨n, ran', rfl⟩
      obtain ⟨rfl, rfl⟩ := answered_inj (ran'.symm.trans ran)
      exact served.answers
  refused fuel id call paren cause n ran := by
    obtain ⟨answer', n', served⟩ := Native.served inside call
    obtain ⟨rfl, rfl⟩ := answered_inj (ran.symm.trans (callNative_answered served.ran paren))
    exact served.refused cause rfl
  confined fuel id call paren := by
    have confined := Native.run_confined o call m
    obtain ⟨answer, n, ran⟩ := Native.exists_respond (call.routine.run (some o) call.arguments m)
    rw [ran, Native.final_respond] at confined
    show Native.Confined o m (final (callNative _ _ _ _ m))
    rw [callNative_answered ran paren]
    cases answer <;> exact confined
  plays entries n lived := lived.plays inside
  evaluated fuel e := evaluate_follows (invoke_follows fuel) e m
  executed fuel laps s := execute_follows (invoke_follows fuel) laps s m
  invoked fuel callee arguments paren := invoke_follows fuel callee arguments paren m
  texts fuel source := ⟨.runText o m fuel source, .evaluateText o m fuel source⟩

/-- Every machine of a session is well formed, and whatever is run on a well-formed machine leaves and
yields what is well formed. An instance of `List`, or of a class below it, that is found there is a
sequence; its field `length` is equal to the number of elements when it was just set. -/
theorem lists_are_sequences :
    (∀ m : Machine, m.Reachable → m.Upright) ∧
    (∀ (m : Machine) fuel e, m.Upright → Stood m Value.Upright (evaluate (invoke fuel) e m)) ∧
    (∀ (m : Machine) fuel laps s, m.Upright →
      Stood m Flow.Upright (execute (invoke fuel) laps s m)) ∧
    (∀ (m : Machine) fuel callee arguments paren, m.Upright → callee.Upright m.store →
      AllUpright m.store arguments →
      Stood m Value.Upright (invoke fuel callee arguments paren m)) ∧
    (∀ (m : Machine) (c : Class) (o : ObjectId), (Value.instance c o).Upright m.store →
      Native.listClass ∈ c.upward → IsSequence m c o) ∧
    ∀ n < 2 ^ 53, (Value.number n.toFloat).Denotes n := by
  refine ⟨fun m reachable => reachable.upright, ?_, ?_, ?_, ?_, fun n fits => denotes_toFloat fits⟩
  · exact fun m fuel e upright => evaluate_stays (invoke_stays fuel) e m (.refl _) upright
  · exact fun m fuel laps s upright => execute_stays (invoke_stays fuel) laps s m (.refl _) upright
  · exact fun m fuel callee arguments paren upright good all =>
      invoke_stays fuel paren good all m (.refl _) upright
  · exact fun m c o known list => isSequence known.2 list

/-- Whether a class is that of lists. -/
def isListClass : Class → Bool
  | ⟨2, "List", none, [(init, .native .listInit), (get, .native .listGet), (set, .native .listSet),
      (append, .native .listAppend), (remove, .native .listRemove), (pop, .native .listPop)]⟩ =>
    [init, get, set, append, remove, pop] ==
      [initializerName, "get", "set", "append", "remove", "pop"]
  | _ => false

theorem eq_of_isListClass {c : Class} (h : isListClass c = true) : c = Native.listClass := by
  unfold isListClass at h
  split at h
  · simp only [beq_iff_eq, List.cons.injEq, and_true] at h
    obtain ⟨rfl, rfl, rfl, rfl, rfl, rfl⟩ := h
    rfl
  · cases h

/-- Whether the global `x` is an instance of a class below that of lists. -/
def holdsList (m : Machine) (x : String) : Bool :=
  match m.store.getHere? globalFrame x with
  | some (.instance c _) => c.upward.any isListClass
  | _ => false

theorem exists_of_holdsList {m : Machine} {x : String} (h : holdsList m x = true) :
    ∃ c o, m.store.getHere? globalFrame x = some (.instance c o) ∧ Native.listClass ∈ c.upward := by
  unfold holdsList at h
  split at h
  · next c o found =>
    obtain ⟨k, mem, is⟩ := List.any_eq_true.1 h
    exact ⟨c, o, found, eq_of_isListClass is ▸ mem⟩
  · cases h

/-- A stack that is a list, with an initializer of its own and itself as an element. -/
theorem lists_are_sequences_stack :
    let m := ((Machine.start [] .unlimited fun _ => 0).run 5
      "class Stack < List \x7b init() \x7b\x7d \x7d var s = Stack(); s.append(s);").2
    ∃ c o, m.store.getHere? globalFrame "s" = some (.instance c o) ∧ IsSequence m c o := by
  intro m
  have reachable : m.Reachable := .run (.start [] .unlimited fun _ => 0) 5 _
  have check : holdsList m "s" = true := by decide +kernel
  obtain ⟨c, o, found, list⟩ := exists_of_holdsList check
  obtain ⟨upright, -, -, -, sequences, -⟩ := lists_are_sequences
  exact ⟨c, o, found, sequences m c o ((upright m reachable).store.bindings found) list⟩

end Lox
