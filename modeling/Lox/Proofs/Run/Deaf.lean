import Lox.Proofs.Run.Stable
import Lox.Proofs.Run.Trace

/-!
# Deaf to the sink

What does not print does the same whatever the sink is, and leaves it alone (`Deaf`). Of the single
steps only a print is not so.
-/

namespace Lox

open EStateM (Result)

/-- The result with another state. -/
def mapState {ε α : Type} (f : Machine → Machine) : Result ε Machine α → Result ε Machine α
  | .ok a n => .ok a (f n)
  | .error e n => .error e (f n)

namespace Machine

def withSink (m : Machine) (sink : Sink) : Machine := { m with sink }

end Machine

def Deaf {ε α : Type} (x : EStateM ε Machine α) : Prop :=
  ∀ m sink, x (m.withSink sink) = mapState (·.withSink sink) (x m)

namespace Deaf

section Rules

variable {ε α β : Type} {x : EStateM ε Machine α} {f : α → EStateM ε Machine β}
  {g : Machine → EStateM ε Machine β}

theorem pure (a : α) : Deaf (Pure.pure a : EStateM ε Machine α) := fun _ _ => rfl

theorem throw (e : ε) : Deaf (MonadExcept.throw e : EStateM ε Machine α) := fun _ _ => rfl

theorem bind (first : Deaf x) (next : ∀ a, Deaf (f a)) : Deaf (x >>= f) := by
  intro m sink
  show EStateM.bind x f _ = mapState _ (EStateM.bind x f m)
  unfold EStateM.bind
  rw [first m sink]
  cases x m with
  | ok a n => exact next a n sink
  | error e n => rfl

/-- The state is looked at, but not at its sink. -/
theorem get (blind : ∀ m sink, g (m.withSink sink) = g m) (h : ∀ m, Deaf (g m)) :
    Deaf (MonadState.get >>= g) := by
  intro m sink
  show g (m.withSink sink) (m.withSink sink) = mapState _ (g m m)
  rw [blind, h m]

theorem modify {h : Machine → Machine} (blind : ∀ m sink, h (m.withSink sink) = (h m).withSink sink) :
    Deaf (modify h : EStateM ε Machine Unit) :=
  fun m sink => congrArg (Result.ok ()) (blind m sink)

theorem ite {c : Prop} [Decidable c] {y : EStateM ε Machine α} (h : Deaf x) (k : Deaf y) :
    Deaf (if c then x else y) := by
  split
  · exact h
  · exact k

theorem orFail (line : Nat) (cause : RuntimeFault) (o : Option α) : Deaf (Lox.orFail line cause o) := by
  cases o with
  | none => exact throw _
  | some a => exact pure a

theorem lifted (r : Except ε α) : Deaf (liftExcept r : EStateM ε Machine α) := by
  cases r with
  | error e => exact throw e
  | ok a => exact pure a

end Rules

/-- The sink is the one that was there before. -/
theorem sink_final {ε α : Type} {x : EStateM ε Machine α} (h : Deaf x) (m : Machine) :
    (final (x m)).sink = m.sink := by
  have same : x m = mapState (·.withSink m.sink) (x m) := h m m.sink
  cases ended : x m with
  | ok a n | error e n =>
    rw [ended] at same
    injection same with _ same
    exact (congrArg (·.sink) same : n.sink = (n.withSink m.sink).sink)

/-! ### Supplied routines -/

section Native

open Native

theorem slots (o : ObjectId) : Deaf (Native.slots o) := get (fun _ _ => rfl) fun _ => pure _

theorem size (o : ObjectId) : Deaf (Native.size o) := (slots o).bind fun _ => pure _

theorem receiver (object : Option ObjectId) : Deaf (Native.receiver object) := by
  cases object with
  | none => exact throw _
  | some o => exact pure o

theorem modifySlots (o : ObjectId) (f : Array Value → Array Value) :
    Deaf (Native.modifySlots o f) :=
  modify fun _ _ => rfl

theorem syncLength (o : ObjectId) : Deaf (Native.syncLength o) :=
  (size o).bind fun _ => modify fun _ _ => rfl

theorem readText : Deaf Native.readText := by
  refine bind (fun _ _ => rfl) fun line => ?_
  cases line with
  | text s => exact pure _
  | ended => exact pure _
  | fault cause => exact throw _

theorem readNumber : Deaf Native.readNumber := by
  refine bind (fun _ _ => rfl) fun line => ?_
  cases line with
  | text s =>
    dsimp only
    cases Number.ofNumeral? (Text.trim s.toList) with
    | some x => exact pure _
    | none => exact throw _
  | ended => exact throw _
  | fault cause => exact throw _

theorem removeFrom (object : Option ObjectId) (v : Value) : Deaf (Native.removeFrom object v) := by
  refine (receiver object).bind fun o => (slots o).bind fun elements => ?_
  cases elements.findIdx? (·.equals v) with
  | some i => exact (modifySlots o _).bind fun _ => (syncLength o).bind fun _ => pure _
  | none => exact pure _

theorem run (op : Native) (object : Option ObjectId) (arguments : List Value) :
    Deaf (op.run object arguments) := by
  cases op with
  | clock => exact fun _ _ => rfl
  | read => exact readText
  | readNum => exact readNumber
  | listInit =>
    exact (lifted _).bind fun _ => (receiver object).bind fun o =>
      (modifySlots o _).bind fun _ => (syncLength o).bind fun _ => pure _
  | listGet =>
    exact (receiver object).bind fun o => (slots o).bind fun _ => (lifted _).bind fun _ => pure _
  | listSet =>
    exact (receiver object).bind fun o => (size o).bind fun _ => (lifted _).bind fun _ =>
      (modifySlots o _).bind fun _ => pure _
  | listAppend =>
    exact (receiver object).bind fun o => (modifySlots o _).bind fun _ =>
      (syncLength o).bind fun _ => pure _
  | listRemove => exact removeFrom object _
  | listPop =>
    exact (receiver object).bind fun o => (size o).bind fun _ => (lifted _).bind fun _ =>
      (slots o).bind fun _ => (modifySlots o _).bind fun _ => (syncLength o).bind fun _ => pure _

end Native

theorem callNative (op : Native) (receiver : Option ObjectId) (arguments : List Value)
    (paren : Token) : Deaf (Lox.callNative op receiver arguments paren) := by
  intro m sink
  unfold Lox.callNative
  rw [run op receiver arguments m sink]
  cases op.run receiver arguments m <;> rfl

/-! ### Steps of the evaluator -/

theorem freshIdentity : Deaf Lox.freshIdentity := fun _ _ => rfl

theorem childEnv (env : Env) : Deaf (Lox.childEnv env) := fun _ _ => rfl

theorem defineIn (env : Env) (name : String) (v : Value) : Deaf (Lox.defineIn env name v) :=
  modify fun _ _ => rfl

theorem define (name : String) (v : Value) : Deaf (Lox.define name v) :=
  get (fun _ _ => rfl) fun _ => defineIn _ _ _

theorem lookUp (id : NodeId) (name : Token) : Deaf (Lox.lookUp id name) :=
  get (fun _ _ => rfl) fun _ => orFail _ _ _

theorem assignName (id : NodeId) (name : Token) (v : Value) : Deaf (Lox.assignName id name v) := by
  refine get (fun _ _ => rfl) fun m => ?_
  cases m.ownerOf? id name.lexeme with
  | some frame => exact modify fun _ _ => rfl
  | none => exact throw _

theorem assignClass (name : Token) (c : Class) : Deaf (Lox.assignClass name c) := by
  refine get (fun _ _ => rfl) fun m => ?_
  cases m.store.owner? m.env name.lexeme with
  | some frame => exact modify fun _ _ => rfl
  | none => exact throw _

theorem bindMethod (c : Class) (object : ObjectId) (method : Method) :
    Deaf (Lox.bindMethod c object method) := by
  cases method with
  | declared closure =>
    exact (childEnv _).bind fun _ => (defineIn _ _ _).bind fun _ => freshIdentity.bind fun _ => pure _
  | native op => exact freshIdentity.bind fun _ => pure _

theorem getProperty (c : Class) (object : ObjectId) (name : Token) :
    Deaf (Lox.getProperty c object name) := by
  refine get (fun _ _ => rfl) fun m => ?_
  cases m.store.field? object name.lexeme with
  | some v => exact pure v
  | none =>
    exact (orFail _ _ _).bind fun method => (bindMethod c object method).bind fun _ => pure _

theorem superMethod (id : NodeId) (keyword method : Token) :
    Deaf (Lox.superMethod id keyword method) := by
  refine get (fun _ _ => rfl) fun m => (orFail _ _ _).bind fun _ => (orFail _ _ _).bind fun _ =>
    (orFail _ _ _).bind fun _ => (orFail _ _ _).bind fun (c, object) => ?_
  exact (orFail _ _ _).bind fun found => (bindMethod c object found).bind fun _ => pure _

theorem declareFunction (d : FunctionDecl) : Deaf (Lox.declareFunction d) :=
  freshIdentity.bind fun _ => get (fun _ _ => rfl) fun _ => define _ _

theorem methodEnv (superclass : Option Class) : Deaf (Lox.methodEnv superclass) := by
  refine get (fun _ _ => rfl) fun m => ?_
  cases superclass with
  | none => exact pure _
  | some c => exact (childEnv _).bind fun _ => (defineIn _ _ _).bind fun _ => pure _

theorem result (closure : Closure) (flow : Flow) : Deaf (Lox.result closure flow) := by
  unfold Lox.result
  refine ite (get (fun _ _ => rfl) fun m => pure _) ?_
  cases flow with
  | normal | «break» => exact pure _
  | «return» v => exact pure v

end Deaf

end Lox
