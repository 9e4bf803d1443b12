import Lox.Proofs.Run.Routines
import Lox.Proofs.Run.Upright

/-!
# Keeping machines well formed

A computation that begins at a well-formed machine leaves one, yields what is well formed there, and
does not end because a routine of lists misses its list (`Stays`): the rules, and the single steps.
What is well formed at one moment is so from then on.
-/

namespace Lox

open EStateM (Result)

/-- The scopes in reach are the same, and no frame and no object is gone. -/
structure Grows (m n : Machine) : Prop where
  env : n.env = m.env
  store : m.store.Before n.store

namespace Grows

variable {m n o : Machine}

theorem refl (m : Machine) : Grows m m := ⟨rfl, .refl _⟩

theorem trans (h : Grows m n) (k : Grows n o) : Grows m o :=
  ⟨k.env.trans h.env, h.store.trans k.store⟩

end Grows

/-- Anything but a routine of lists without its list. -/
def Halt.Proper (e : Halt) : Prop := ∀ line, e ≠ .error (.program line (.native .noReceiver))

/-- What a computation leaves that began at `m`. -/
inductive Stood {α : Type} (m : Machine) (Q : Store → α → Prop) : Result Halt Machine α → Prop
  | ok {a : α} {n : Machine} (upright : n.Upright) (grows : Grows m n) (good : Q n.store a) :
      Stood m Q (.ok a n)
  | error {e : Halt} {n : Machine} (upright : n.Upright) (grows : Grows m n) (proper : e.Proper) :
      Stood m Q (.error e n)

theorem Stood.after {α : Type} {m n : Machine} {Q : Store → α → Prop} {r : Result Halt Machine α}
    (grows : Grows m n) (h : Stood n Q r) : Stood m Q r := by
  cases h with
  | ok upright more good => exact .ok upright (grows.trans more) good
  | error upright more proper => exact .error upright (grows.trans more) proper

/-- The computation keeps all machines well formed that come after `s`. -/
def Stays {α : Type} (s : Store) (x : Eval α) (Q : Store → α → Prop) : Prop :=
  ∀ m, s.Before m.store → m.Upright → Stood m Q (x m)

/-- All values of a list are well formed. -/
def AllUpright (s : Store) (vs : List Value) : Prop := ∀ v ∈ vs, v.Upright s

theorem AllUpright.mono {s t : Store} (later : s.Before t) {vs : List Value} (h : AllUpright s vs) :
    AllUpright t vs :=
  fun v mem => (h v mem).mono later

def AnyResult {α : Type} (_ : Store) (_ : α) : Prop := True

/-- What a statement that returns hands over is well formed. -/
def Flow.Upright (s : Store) : Flow → Prop
  | .return v => v.Upright s
  | _ => True

/-! ### Operators -/

/-- What an operator comes to: a value without references, or a fault of its own. -/
inductive Operated : Except RuntimeFault Value → Prop
  | ok {v : Value} (plain : v.Plain) : Operated (.ok v)
  | operand : Operated (.error .operandNotNumber)
  | operands : Operated (.error .operandsNotNumbers)
  | summands : Operated (.error .operandsNotAddable)
  | unary (lexeme : String) : Operated (.error (.invalidUnaryOperator lexeme))
  | binary (lexeme : String) : Operated (.error (.invalidBinaryOperator lexeme))

theorem operated_unary (operator : Token) (v : Value) : Operated (v.applyUnary operator) := by
  unfold Value.applyUnary
  split
  · exact .ok (.number _)
  · exact .operand
  · exact .ok (.bool _)
  · exact .unary _

theorem operated_numeric (operator : Token) (x y : Float) :
    Operated (Value.applyNumeric operator x y) := by
  unfold Value.applyNumeric
  split
  iterate 3 exact .ok (.number _)
  iterate 4 exact .ok (.bool _)
  exact .binary _

theorem operated_add (v w : Value) : Operated (v.add w) := by
  unfold Value.add
  split
  · exact .ok (.number _)
  · exact .ok (.string _)
  · exact .summands

theorem operated_binary (operator : Token) (v w : Value) : Operated (v.applyBinary operator w) := by
  unfold Value.applyBinary
  split
  · exact .ok (.bool _)
  · exact .ok (.bool _)
  · exact operated_add v w
  · split
    · exact operated_numeric operator _ _
    · exact .operands

/-! ### Computations -/

namespace Stays

variable {α β : Type} {s : Store} {Q : Store → α → Prop} {R : Store → β → Prop}

theorem pure {a : α} (good : ∀ t, s.Before t → Q t a) : Stays s (Pure.pure a) Q :=
  fun m later upright => .ok upright (.refl m) (good _ later)

theorem throw {e : Halt} (proper : e.Proper) : Stays s (MonadExcept.throw e) Q :=
  fun m _ upright => .error upright (.refl m) proper

theorem bind {x : Eval α} {f : α → Eval β} (first : Stays s x Q)
    (next : ∀ t a, s.Before t → Q t a → Stays t (f a) R) : Stays s (x >>= f) R := by
  intro m later upright
  have done := first m later upright
  show Stood m R (EStateM.bind x f m)
  unfold EStateM.bind
  revert done
  cases x m with
  | error e n =>
    rintro (_ | ⟨upright, grows, proper⟩)
    exact .error upright grows proper
  | ok a n =>
    rintro (⟨upright, grows, good⟩ | _)
    exact (next n.store a (later.trans grows.store) good n (.refl _) upright).after grows

theorem get {f : Machine → Eval β}
    (h : ∀ m, s.Before m.store → m.Upright → Stays m.store (f m) R) :
    Stays s (MonadState.get >>= f) R :=
  fun m later upright => h m later upright m (.refl _) upright

/-- A change to the store that keeps it well formed. -/
theorem modify {f : Store → Store} (keeps : ∀ t, s.Before t → t.Upright → (f t).Upright)
    (before : ∀ t : Store, t.Before (f t)) :
    Stays s (modify (·.mapStore f)) fun _ (_ : Unit) => True :=
  fun m later upright =>
    .ok ⟨keeps _ later upright.store, upright.env.mono (before m.store)⟩ ⟨rfl, before m.store⟩ trivial

theorem ite {c : Prop} [Decidable c] {x y : Eval α} (h : Stays s x Q) (k : Stays s y Q) :
    Stays s (if c then x else y) Q := by
  split
  · exact h
  · exact k

/-- In other scopes that are well formed. -/
theorem within {x : Eval α} {env : Env} (grounded : Grounded s env) (h : Stays s x Q) :
    Stays s (Lox.within env x) Q := by
  intro m later upright
  have done := h { m with env } later ⟨upright.store, grounded.mono later⟩
  revert done
  unfold Lox.within
  cases x { m with env } with
  | ok a n =>
    rintro (⟨after, grows, good⟩ | _)
    exact .ok ⟨after.store, upright.env.mono grows.store⟩ ⟨rfl, grows.store⟩ good
  | error e n =>
    rintro (_ | ⟨after, grows, proper⟩)
    exact .error ⟨after.store, upright.env.mono grows.store⟩ ⟨rfl, grows.store⟩ proper

end Stays

section Steps

variable {s : Store}

theorem fail_stays {α : Type} {Q : Store → α → Prop} (line : Nat) {cause : RuntimeFault}
    (proper : cause ≠ .native .noReceiver) : Stays s (fail line cause) Q :=
  Stays.throw fun _ same => proper (by cases same; rfl)

theorem orFail_stays {α : Type} {Q : Store → α → Prop} (line : Nat) {cause : RuntimeFault}
    {o : Option α} (proper : cause ≠ .native .noReceiver)
    (good : ∀ a, o = some a → ∀ t, s.Before t → Q t a) : Stays s (orFail line cause o) Q := by
  cases o with
  | none => exact fail_stays line proper
  | some a => exact Stays.pure (good a rfl)

theorem orFault_stays (line : Nat) {r : Except RuntimeFault Value} (h : Operated r) :
    Stays s (orFault line r) Value.Upright := by
  cases h with
  | ok plain => exact Stays.pure fun _ _ => plain.upright _
  | operand | operands | summands | unary | binary => exact fail_stays line nofun

theorem childEnv_stays {env : Env} (grounded : Grounded s env) :
    Stays s (childEnv env) Grounded := by
  intro m later upright
  have old := grounded.mono (later.trans (.child m.store env))
  refine .ok ⟨upright.store.child env, upright.env.mono (.child m.store env)⟩
    ⟨rfl, .child m.store env⟩ ⟨?_, List.forall_mem_cons.2 ⟨?_, old.inside⟩⟩
  · cases env with
    | nil => cases grounded.outermost
    | cons f env => exact List.getLast?_cons_cons.trans grounded.outermost
  · simp

theorem defineIn_stays (env : Env) (name : String) {v : Value} (good : v.Upright s) :
    Stays s (defineIn env name v) AnyResult := by
  cases env with
  | nil => exact Stays.modify (fun _ _ upright => upright) .refl
  | cons f env =>
    exact Stays.modify (fun t later upright => upright.put (good.mono later) f name)
      (.put · f name v)

theorem define_stays (name : String) {v : Value} (good : v.Upright s) :
    Stays s (define name v) AnyResult :=
  Stays.get fun m later _ => defineIn_stays m.env name (good.mono later)

theorem freshIdentity_stays : Stays s freshIdentity AnyResult :=
  fun m _ upright => .ok ⟨upright.store, upright.env⟩ ⟨rfl, .refl m.store⟩ trivial

theorem printLine_stays (text : String) : Stays s (printLine text) AnyResult := by
  refine Stays.bind (Q := AnyResult) ?_ fun t fits _ _ => ?_
  · exact fun m _ upright => .ok ⟨upright.store, upright.env⟩ ⟨rfl, .refl m.store⟩ trivial
  · cases fits with
    | true => exact Stays.pure fun _ _ => trivial
    | false => exact Stays.throw nofun

/-! ### Names -/

theorem Machine.Upright.valueAt? {m : Machine} (h : m.Upright) {id : NodeId} {x : String} {v : Value}
    (found : m.valueAt? id x = some v) : v.Upright m.store := by
  unfold Machine.valueAt? at found
  cases distance : m.distances[id]? with
  | some d =>
    rw [distance] at found
    obtain ⟨f, -, here⟩ := Option.bind_eq_some_iff.1 found
    exact h.store.bindings here
  | none =>
    rw [distance] at found
    obtain ⟨f, -, here⟩ := List.exists_of_findSome?_eq_some found
    exact h.store.bindings here

theorem lookUp_stays (id : NodeId) (name : Token) : Stays s (lookUp id name) Value.Upright :=
  Stays.get fun _ _ upright => orFail_stays name.line nofun fun _ found _ later =>
    (upright.valueAt? found).mono later

theorem assignName_stays (id : NodeId) (name : Token) {v : Value} (good : v.Upright s) :
    Stays s (assignName id name v) AnyResult := by
  refine Stays.get fun m later _ => ?_
  cases m.ownerOf? id name.lexeme with
  | some f =>
    exact Stays.modify (fun t more upright => upright.put (good.mono (later.trans more)) f name.lexeme)
      (.put · f name.lexeme v)
  | none => exact fail_stays name.line nofun

/-! ### Methods -/

theorem bindMethod_stays {c : Class} {o : ObjectId} {method : Method}
    (receiver : (Value.instance c o).Upright s) (good : method.Upright s) :
    Stays s (bindMethod c o method) Callable.Upright := by
  cases method with
  | declared closure =>
    refine (childEnv_stays good).bind fun t env later grounded => ?_
    refine (defineIn_stays env "this" (receiver.mono later)).bind fun u _ more _ => ?_
    refine freshIdentity_stays.bind fun w id most _ => Stays.pure fun x last => ?_
    exact grounded.mono (more.trans (most.trans last))
  | native op =>
    refine freshIdentity_stays.bind fun t id later _ => Stays.pure fun u more _ => ?_
    exact ⟨o, rfl, Nat.lt_of_lt_of_le receiver.2 (later.trans more).objects⟩

/-- A method found upward from one class, bound to an instance of another. -/
theorem takeMethod_stays {k c : Class} {o : ObjectId} (name : Token)
    (receiver : (Value.instance c o).Upright s) (good : k.Upright s) :
    Stays s (takeMethod k c o name) Value.Upright := by
  refine Stays.bind (orFail_stays (Q := Method.Upright) name.line nofun fun method found t later =>
    (good.found found).mono later) fun t method later good => ?_
  exact (bindMethod_stays (receiver.mono later) good).bind fun u bound _ good =>
    Stays.pure fun w more => Callable.Upright.mono more good

theorem getProperty_stays {c : Class} {o : ObjectId} (name : Token)
    (receiver : (Value.instance c o).Upright s) :
    Stays s (getProperty c o name) Value.Upright := by
  refine Stays.get fun m later upright => ?_
  cases field : m.store.field? o name.lexeme with
  | some v => exact Stays.pure fun t more => (upright.store.fields field).mono more
  | none => exact takeMethod_stays name (receiver.mono later) (receiver.mono later).1

theorem superMethod_stays (id : NodeId) (keyword method : Token) :
    Stays s (superMethod id keyword method) Value.Upright := by
  refine Stays.get fun m later upright => ?_
  have held : ∀ d x v, m.store.getAt? m.env d x = some v → v.Upright m.store := by
    intro d x v found
    obtain ⟨f, -, here⟩ := Option.bind_eq_some_iff.1 found
    exact upright.store.bindings here
  refine Stays.bind (Q := AnyResult) (orFail_stays keyword.line nofun fun _ _ _ _ => trivial)
    fun t d before _ => ?_
  refine Stays.bind (Q := Value.Upright) (orFail_stays keyword.line nofun fun v found u more =>
    (held d _ v found).mono (before.trans more)) fun u v after good => ?_
  refine Stays.bind (Q := Class.Upright) (orFail_stays keyword.line nofun fun k is w more => ?_)
    fun w k last super => ?_
  · cases v with
    | callable c =>
      cases c with
      | «class» c =>
        cases is
        exact good.mono more
      | function | native => cases is
    | nil | bool | number | string | «instance» => cases is
  refine Stays.bind (Q := fun t p => (Value.instance p.1 p.2).Upright t)
    (orFail_stays keyword.line nofun fun p found x more => ?_) fun x p most receiver => ?_
  · obtain ⟨v, here, is⟩ := Option.bind_eq_some_iff.1 found
    cases v with
    | «instance» c o =>
      cases is
      exact (held _ _ _ here).mono (before.trans (after.trans (last.trans more)))
    | nil | bool | number | string | callable => cases is
  · exact takeMethod_stays method receiver (super.mono most)

end Steps

/-! ### Supplied routines -/

namespace Native

/-- What a routine leaves that began at `m`. -/
def Kept (m : Machine) : Result NativeFault Machine Value → Prop
  | .ok v n => n.Upright ∧ Grows m n ∧ v.Upright n.store
  | .error cause n => n.Upright ∧ Grows m n ∧ cause ≠ .noReceiver

theorem index_proper {v : Value} {size : Nat} {cause : NativeFault}
    (h : index v size = .error cause) : cause ≠ .noReceiver := by
  unfold index at h
  split at h
  · split at h <;> cases h
    nofun
  · cases h
    nofun

theorem startSize_proper {v : Value} {cause : NativeFault} (h : startSize v = .error cause) :
    cause ≠ .noReceiver := by
  unfold startSize at h
  split at h
  · split at h <;> cases h
    nofun
  · cases h
    nofun

section Kept

variable {m : Machine} (upright : m.Upright)

include upright

theorem kept_error {cause : NativeFault} (proper : cause ≠ .noReceiver) : Kept m (.error cause m) :=
  ⟨upright, .refl m, proper⟩

theorem kept_ok {v : Value} (good : v.Upright m.store) : Kept m (.ok v m) := ⟨upright, .refl m, good⟩

theorem kept_change {v : Value} {t : Store} (good : v.Upright m.store) (store : t.Upright)
    (later : m.store.Before t) : Kept m (.ok v { m with store := t }) :=
  ⟨⟨store, upright.env.mono later⟩, ⟨rfl, later⟩, good.mono later⟩

theorem kept_refill {v : Value} (o : ObjectId) {xs : Array Value} (good : v.Upright m.store)
    (elements : ∀ w ∈ xs, w.Upright m.store) : Kept m (.ok v (m.mapStore (·.refill o xs))) :=
  kept_change upright good (upright.store.refill o elements) (.refill _ o xs)

theorem kept_elsewhere {r : Result NativeFault Machine Value} (h : Elsewhere m r) : Kept m r := by
  cases h with
  | @ok v n store env plain =>
    refine ⟨⟨?_, ?_⟩, ⟨env, ?_⟩, ?_⟩
    · exact store ▸ upright.store
    · exact store ▸ env ▸ upright.env
    · exact store ▸ Store.Before.refl _
    · exact plain.upright _
  | error store env other =>
    exact ⟨⟨store ▸ upright.store, store ▸ env ▸ upright.env⟩, ⟨env, store ▸ Store.Before.refl _⟩,
      other⟩

theorem run_kept {op : Native} {receiver : Option ObjectId} {arguments : List Value}
    (list : op.ofLists → ∃ o, receiver = some o ∧ o < m.store.objects.size)
    (good : AllUpright m.store arguments) : Kept m (op.run receiver arguments m) := by
  have argument : ∀ i, (arguments.getD i .nil).Upright m.store := by
    intro i
    rw [List.getD_eq_getElem?_getD]
    cases found : arguments[i]? with
    | none => trivial
    | some v => exact good v (List.mem_of_getElem? found)
  cases lists : op.ofLists with
  | false => exact kept_elsewhere upright (run_elsewhere lists receiver arguments m)
  | true =>
  obtain ⟨o, rfl, -⟩ := list lists
  have element : ∀ i, ((m.store.slots o).getD i .nil).Upright m.store := by
    intro i
    rw [Array.getD_eq_getD_getElem?]
    cases found : (m.store.slots o)[i]? with
    | none => trivial
    | some v => exact upright.store.elements (Array.mem_of_getElem? found)
  have erased : ∀ i, ∀ w ∈ (m.store.slots o).eraseIdxIfInBounds i, w.Upright m.store := by
    intro i w mem
    rw [← Array.mem_toList_iff, Array.toList_eraseIdxIfInBounds] at mem
    exact upright.store.elements (Array.mem_toList_iff.1 (List.mem_of_mem_eraseIdx mem))
  cases op with
  | clock | read | readNum => cases lists
  | listInit =>
    show Kept m (startList (some o) _ m)
    rw [startList_run]
    cases sized : startSize (arguments.getD 0 .nil) with
    | error cause => exact kept_error upright (startSize_proper sized)
    | ok n =>
      refine kept_refill upright o (v := .nil) trivial fun w mem => ?_
      rw [(Array.mem_replicate.1 mem).2]
      trivial
  | listGet =>
    show Kept m (elementAt (some o) _ m)
    rw [elementAt_run]
    cases at? : index (arguments.getD 0 .nil) (m.store.slots o).size with
    | error cause => exact kept_error upright (index_proper at?)
    | ok i => exact kept_ok upright (element i)
  | listSet =>
    show Kept m (replaceAt (some o) _ _ m)
    rw [replaceAt_run]
    cases at? : index (arguments.getD 0 .nil) (m.store.slots o).size with
    | error cause => exact kept_error upright (index_proper at?)
    | ok i =>
      refine kept_change upright (argument 1) (upright.store.modifySlots o fun w mem => ?_)
        (.modifySlots _ o _)
      obtain old | rfl := Array.mem_or_eq_of_mem_setIfInBounds mem
      · exact upright.store.elements old
      · exact argument 1
  | listAppend =>
    show Kept m (appendTo (some o) _ m)
    rw [appendTo_run]
    refine kept_refill upright o (v := .nil) trivial fun w mem => ?_
    obtain old | rfl := Array.mem_push.1 mem
    · exact upright.store.elements old
    · exact argument 0
  | listRemove =>
    show Kept m (removeFrom (some o) _ m)
    rw [removeFrom_run]
    cases (m.store.slots o).findIdx? (·.equals (arguments.getD 0 .nil)) with
    | some i => exact kept_refill upright o (v := .bool true) trivial (erased i)
    | none => exact kept_ok upright (v := .bool false) trivial
  | listPop =>
    show Kept m (popAt (some o) _ m)
    rw [popAt_run]
    cases at? : index (arguments.getD 0 .nil) (m.store.slots o).size with
    | error cause => exact kept_error upright (index_proper at?)
    | ok i => exact kept_refill upright o (element i) (erased i)

end Kept

end Native

section Steps

variable {s : Store}

theorem callNative_stays {op : Native} {receiver : Option ObjectId} {arguments : List Value}
    (list : op.ofLists → ∃ o, receiver = some o ∧ o < s.objects.size) (good : AllUpright s arguments)
    (paren : Token) : Stays s (callNative op receiver arguments paren) Value.Upright := by
  intro m later upright
  have kept : Native.Kept m (op.run receiver arguments m) := Native.run_kept upright
    (fun lists => (list lists).imp fun o is => ⟨is.1, Nat.lt_of_lt_of_le is.2 later.objects⟩)
    (good.mono later)
  unfold callNative
  revert kept
  cases op.run receiver arguments m with
  | ok v n => exact fun kept => .ok kept.1 kept.2.1 kept.2.2
  | error cause n =>
    refine fun kept => .error kept.1 kept.2.1 fun line same => kept.2.2 ?_
    cases same
    rfl

end Steps

end Lox
