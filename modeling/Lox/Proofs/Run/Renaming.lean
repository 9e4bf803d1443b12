import Mathlib.Logic.Equiv.Basic
import Lox.Proofs.Run.Holding

/-!
# Other identities

No program can see the identity of a callable: it can tell only whether two are the same. With all
identities renamed at once, values print, compare and test as before, an operator yields the renamed
value (`applyBinary_renamed`), and so does a supplied routine (`run_renamed`).
-/

namespace Lox

open EStateM (Result)

variable (σ : Equiv.Perm Identity)

/-! ### Values -/

/-- Methods are made of no identity. -/
def Class.renamed : Class → Class
  | ⟨id, name, none, methods⟩ => ⟨σ id, name, none, methods⟩
  | ⟨id, name, some superclass, methods⟩ => ⟨σ id, name, some superclass.renamed, methods⟩

def Callable.renamed : Callable → Callable
  | .function id closure => .function (σ id) closure
  | .native id op receiver => .native (σ id) op receiver
  | .class c => .class (c.renamed σ)

def Value.renamed : Value → Value
  | .callable c => .callable (c.renamed σ)
  | .instance c object => .instance (c.renamed σ) object
  | v => v

def Flow.renamed : Flow → Flow
  | .return v => .return (v.renamed σ)
  | flow => flow

section Observations

theorem Class.renamed_mk (id : Identity) (name : String) (superclass : Option Class)
    (methods : List (String × Method)) :
    (⟨id, name, superclass, methods⟩ : Class).renamed σ =
      ⟨σ id, name, superclass.map (·.renamed σ), methods⟩ := by
  cases superclass <;> rfl

@[simp] theorem Class.id_renamed (c : Class) : (c.renamed σ).id = σ c.id := by
  obtain ⟨id, name, superclass, methods⟩ := c
  rw [Class.renamed_mk]

@[simp] theorem Class.name_renamed (c : Class) : (c.renamed σ).name = c.name := by
  obtain ⟨id, name, superclass, methods⟩ := c
  rw [Class.renamed_mk]

theorem Class.findMethod?_renamed (name : String) : (c : Class) →
    (c.renamed σ).findMethod? name = c.findMethod? name
  | ⟨_, _, none, _⟩ => rfl
  | ⟨_, _, some superclass, methods⟩ => by
    rw [Class.renamed, Class.findMethod?, Class.findMethod?, superclass.findMethod?_renamed name]

theorem Callable.arity_renamed (c : Callable) : (c.renamed σ).arity = c.arity := by
  cases c with
  | function | native => rfl
  | «class» c => simp only [renamed, arity, Class.arity, c.findMethod?_renamed σ]

theorem Callable.text_renamed (c : Callable) : (c.renamed σ).text = c.text := by
  cases c with
  | function | native => rfl
  | «class» c => exact c.name_renamed σ

/-- Different identities have different names. -/
theorem Callable.same_renamed (c d : Callable) : (c.renamed σ).same (d.renamed σ) = c.same d := by
  have distinct : ∀ i j, (σ i == σ j) = (i == j) := fun i j => by
    rw [Bool.eq_iff_iff, beq_iff_eq, beq_iff_eq]
    exact σ.injective.eq_iff
  cases c <;> cases d <;> simp only [renamed, same, Class.id_renamed, distinct]

variable (v w : Value)

theorem Value.isTruthy_renamed : (v.renamed σ).isTruthy = v.isTruthy := by
  cases v <;> rfl

theorem Value.text_renamed : (v.renamed σ).text = v.text := by
  cases v with
  | callable c => exact c.text_renamed σ
  | «instance» c => simp only [renamed, text, Class.name_renamed]
  | nil | bool | number | string => rfl

theorem Value.equals_renamed : (v.renamed σ).equals (w.renamed σ) = v.equals w := by
  cases v with
  | callable c =>
    cases w with
    | callable d => exact c.same_renamed σ d
    | nil | bool | number | string | «instance» => rfl
  | nil | bool | number | string | «instance» => cases w <;> rfl

theorem Value.decides_renamed (operator : Token) :
    (v.renamed σ).decides operator = v.decides operator := by
  unfold decides
  rw [isTruthy_renamed]

theorem Value.ofLiteral_renamed (l : Literal) : (ofLiteral l).renamed σ = ofLiteral l := by
  cases l <;> rfl

theorem classOf?_renamed : classOf? (v.renamed σ) = (classOf? v).map (·.renamed σ) := by
  cases v with
  | callable c => cases c <;> rfl
  | nil | bool | number | string | «instance» => rfl

theorem instanceOf?_renamed :
    instanceOf? (v.renamed σ) = (instanceOf? v).map fun p => (p.1.renamed σ, p.2) := by
  cases v <;> rfl

theorem index_renamed (size : Nat) : Native.index (v.renamed σ) size = Native.index v size := by
  cases v <;> rfl

theorem startSize_renamed : Native.startSize (v.renamed σ) = Native.startSize v := by
  cases v <;> rfl

/-! ### Operators -/

theorem Value.applyUnary_renamed (operator : Token) :
    (v.renamed σ).applyUnary operator = (v.applyUnary operator).map (·.renamed σ) := by
  have same : (v.renamed σ).applyUnary operator = v.applyUnary operator := by
    unfold applyUnary
    cases operator.kind with
    | symbol s => cases s <;> cases v <;> rfl
    | _ => rfl
  rw [same]
  unfold applyUnary
  split <;> rfl

theorem Value.applyNumeric_renamed (operator : Token) (x y : Float) :
    applyNumeric operator x y = (applyNumeric operator x y).map (·.renamed σ) := by
  unfold applyNumeric
  split <;> rfl

theorem Value.add_renamed : (v.renamed σ).add (w.renamed σ) = (v.add w).map (·.renamed σ) := by
  cases v <;> cases w <;> rfl

theorem Value.applyBinary_renamed (operator : Token) :
    (v.renamed σ).applyBinary operator (w.renamed σ) =
      (v.applyBinary operator w).map (·.renamed σ) := by
  unfold applyBinary
  rw [equals_renamed]
  split
  · rfl
  · rfl
  · exact v.add_renamed σ w
  · cases v with
    | number x =>
      cases w with
      | number y => exact applyNumeric_renamed σ operator x y
      | nil | bool | string | callable | «instance» => rfl
    | nil | bool | string | callable | «instance» => rfl

end Observations

/-! ### Stores -/

/-- The store with the renamed values. -/
structure RenamedStore (s s' : Store) : Prop where
  scopes : s'.frames.size = s.frames.size
  here : ∀ f x, s'.getHere? f x = (s.getHere? f x).map (·.renamed σ)
  count : s'.objects.size = s.objects.size
  field : ∀ o x, s'.field? o x = (s.field? o x).map (·.renamed σ)
  slots : ∀ o, s'.slots o = (s.slots o).map (·.renamed σ)

/-- A store without an identity that is renamed. -/
theorem Store.All.renamed {σ} {s : Store} (h : s.All fun v => v.renamed σ = v) :
    RenamedStore σ s s where
  scopes := rfl
  here f x := by
    cases found : s.getHere? f x with
    | none => rfl
    | some v => exact congrArg some (h.bindings found).symm
  count := rfl
  field o x := by
    cases found : s.field? o x with
    | none => rfl
    | some v => exact congrArg some (h.fields found).symm
  slots o := by
    have same : (s.slots o).map (·.renamed σ) = (s.slots o).map id :=
      Array.map_congr_left fun v mem => h.elements mem
    rw [same, Array.map_id]

namespace RenamedStore

variable {σ} {s s' : Store} (h : RenamedStore σ s s')

include h

theorem binds (name : String) : s'.binds name = s.binds name :=
  funext fun f => by rw [Store.binds, Store.binds, h.here, Option.isSome_map]

theorem getAt? (env : Env) (distance : Nat) (name : String) :
    s'.getAt? env distance name = (s.getAt? env distance name).map (·.renamed σ) := by
  unfold Store.getAt?
  cases env[distance]? with
  | none => rfl
  | some f => exact h.here f name

theorem get? (env : Env) (name : String) :
    s'.get? env name = (s.get? env name).map (·.renamed σ) := by
  unfold Store.get?
  induction env with
  | nil => rfl
  | cons f env ih =>
    rw [List.findSome?_cons, List.findSome?_cons, h.here]
    cases s.getHere? f name with
    | none => exact ih
    | some v => rfl

theorem child (env : Env) : RenamedStore σ (s.child env).2 (s'.child env).2 where
  scopes := by rw [size_child, size_child, h.scopes]
  here f x := by rw [s.getHere?_child, s'.getHere?_child, h.here]
  count := h.count
  field := h.field
  slots := h.slots

theorem put (frame : FrameId) (name : String) (v : Value) :
    RenamedStore σ (s.put frame name v) (s'.put frame name (v.renamed σ)) where
  scopes := by rw [size_put, size_put, h.scopes]
  here f x := by
    by_cases inside : frame < s.frames.size
    · rw [s.getHere?_put frame f name x v inside,
        s'.getHere?_put frame f name x _ (h.scopes ▸ inside)]
      split
      · rfl
      · exact h.here f x
    · rw [getHere?_put_outside s frame name v inside,
        getHere?_put_outside s' frame name _ (h.scopes ▸ inside), h.here]
  count := h.count
  field := h.field
  slots := h.slots

theorem define (env : Env) (name : String) (v : Value) :
    RenamedStore σ (s.define env name v) (s'.define env name (v.renamed σ)) := by
  cases env with
  | nil => exact h
  | cons frame outer => exact h.put frame name v

theorem allocate : RenamedStore σ s.allocate.2 s'.allocate.2 where
  scopes := h.scopes
  here := h.here
  count := by simp [Store.allocate, h.count]
  field o x := by rw [field?_allocate, field?_allocate, h.field]
  slots o := by rw [slots_allocate, slots_allocate, h.slots]

theorem setField (o : ObjectId) (name : String) (v : Value) :
    RenamedStore σ (s.setField o name v) (s'.setField o name (v.renamed σ)) where
  scopes := h.scopes
  here := h.here
  count := by simp [Store.setField, h.count]
  field p x := by
    rw [field?_setField, field?_setField, h.count, h.field]
    split <;> rfl
  slots p := by rw [slots_setField, slots_setField, h.slots]

theorem modifySlots (o : ObjectId) {f g : Array Value → Array Value}
    (along : g ((s.slots o).map (·.renamed σ)) = (f (s.slots o)).map (·.renamed σ)) :
    RenamedStore σ (s.modifySlots o f) (s'.modifySlots o g) where
  scopes := h.scopes
  here := h.here
  count := by simp [Store.modifySlots, h.count]
  field p x := by rw [field?_modifySlots, field?_modifySlots, h.field]
  slots p := by
    rw [slots_modifySlots, slots_modifySlots, h.count, h.slots]
    split
    · next here =>
      rw [here.1]
      exact along
    · rfl

theorem refill (o : ObjectId) (xs : Array Value) :
    RenamedStore σ (s.refill o xs) (s'.refill o (xs.map (·.renamed σ))) := by
  have elements := h.modifySlots o (f := fun _ => xs) (g := fun _ => xs.map (·.renamed σ)) rfl
  have refilled := elements.setField o "length" (.number xs.size.toFloat)
  unfold Store.refill
  rw [Array.size_map]
  exact refilled

end RenamedStore

/-! ### Machines -/

/-- The machine with the renamed values. The next identity is the same. -/
structure Renamed (m m' : Machine) : Prop where
  store : RenamedStore σ m.store m'.store
  env : m'.env = m.env
  distances : ∀ i : NodeId, m'.distances[i]? = m.distances[i]?
  input : m'.input = m.input
  sink : m'.sink = m.sink
  clock : m'.clock = m.clock
  ticks : m'.ticks = m.ticks
  nextIdentity : m'.nextIdentity = m.nextIdentity

/-- The renamed value or the same error, on the renamed machine. -/
inductive RenamedResult {ε α β : Type} (φ : α → β) :
    Result ε Machine α → Result ε Machine β → Prop
  | ok {a : α} {n n' : Machine} (state : Renamed σ n n') : RenamedResult φ (.ok a n) (.ok (φ a) n')
  | error {e : ε} {n n' : Machine} (state : Renamed σ n n') :
      RenamedResult φ (.error e n) (.error e n')

/-- What refers to nothing is not renamed. -/
theorem RenamedResult.plain {σ} {ε : Type} {v : Value} (h : v.Plain) {n n' : Machine}
    (state : Renamed σ n n') :
    RenamedResult (ε := ε) σ (Value.renamed σ) (.ok v n) (.ok v n') := by
  have same : v.renamed σ = v := by cases h <;> rfl
  have renamed : RenamedResult (ε := ε) σ (Value.renamed σ) (.ok v n) (.ok (v.renamed σ) n') :=
    .ok state
  rwa [same] at renamed

theorem RenamedResult.final {σ} {ε α β : Type} {φ : α → β} {r : Result ε Machine α}
    {r' : Result ε Machine β} (h : RenamedResult σ φ r r') :
    Renamed σ (Lox.final r) (Lox.final r') := by
  cases h with
  | ok state => exact state
  | error state => exact state

section Machines

variable {σ} {m m' : Machine} (h : Renamed σ m m')

include h

theorem Renamed.mapStore {f g : Store → Store} (stores : RenamedStore σ (f m.store) (g m'.store)) :
    Renamed σ (m.mapStore f) (m'.mapStore g) :=
  { h with store := stores }

theorem Renamed.valueAt? (id : NodeId) (name : String) :
    m'.valueAt? id name = (m.valueAt? id name).map (·.renamed σ) := by
  unfold Machine.valueAt?
  rw [h.distances, h.env]
  cases m.distances[id]? with
  | some distance => exact h.store.getAt? m.env distance name
  | none => exact h.store.get? globalEnv name

theorem Renamed.ownerOf? (id : NodeId) (name : String) :
    m'.ownerOf? id name = m.ownerOf? id name := by
  unfold Machine.ownerOf? Store.ownerAt? Store.owner?
  rw [h.distances, h.env, h.store.binds]

/-! ### Supplied routines -/

omit h in
theorem getD_renamed (vs : List Value) (i : Nat) :
    (vs.map (·.renamed σ)).getD i .nil = (vs.getD i .nil).renamed σ :=
  vs.getD_map .nil (·.renamed σ)

omit h in
theorem element_renamed (vs : Array Value) (i : Nat) :
    (vs.map (·.renamed σ)).getD i .nil = (vs.getD i .nil).renamed σ := by
  rw [Array.getD_eq_getD_getElem?, Array.getD_eq_getD_getElem?, Array.getElem?_map]
  cases vs[i]? <;> rfl

omit h in
theorem erased_renamed (vs : Array Value) (i : Nat) :
    (vs.map (·.renamed σ)).eraseIdxIfInBounds i = (vs.eraseIdxIfInBounds i).map (·.renamed σ) := by
  apply Array.toList_inj.1
  rw [Array.toList_eraseIdxIfInBounds, Array.toList_map, Array.toList_map,
    Array.toList_eraseIdxIfInBounds, List.eraseIdx_map]

theorem readText_renamed :
    RenamedResult σ (Value.renamed σ) (Native.readText m) (Native.readText m') := by
  have after : Renamed σ { m with input := (Input.readLine m.input).2 }
      { m' with input := (Input.readLine m.input).2 } := { h with input := rfl }
  rw [Native.readText, Grammar.bind_of_ok (Native.nextLine_run m),
    Grammar.bind_of_ok (Native.nextLine_run m'), h.input]
  cases (Input.readLine m.input).1 with
  | text s => exact .plain (.string s) after
  | ended => exact .plain .nil after
  | fault cause => exact .error after

theorem readNumber_renamed :
    RenamedResult σ (Value.renamed σ) (Native.readNumber m) (Native.readNumber m') := by
  have after : Renamed σ { m with input := (Input.readLine m.input).2 }
      { m' with input := (Input.readLine m.input).2 } := { h with input := rfl }
  rw [Native.readNumber, Grammar.bind_of_ok (Native.nextLine_run m),
    Grammar.bind_of_ok (Native.nextLine_run m'), h.input]
  cases (Input.readLine m.input).1 with
  | text s =>
    dsimp only
    cases Number.ofNumeral? (Text.trim s.toList) with
    | some x => exact .plain (.number x) after
    | none => exact .error after
  | ended => exact .error after
  | fault cause => exact .error after

theorem clockReading_renamed :
    RenamedResult σ (Value.renamed σ) (Native.clockReading m) (Native.clockReading m') := by
  have after : Renamed σ { m with ticks := m.ticks + 1 } { m' with ticks := m'.ticks + 1 } :=
    { h with ticks := congrArg (· + 1) h.ticks }
  have read : Native.clockReading m' =
      .ok (.number (m.clock m.ticks)) { m' with ticks := m'.ticks + 1 } := by
    rw [← h.clock, ← h.ticks]
    rfl
  rw [read]
  exact .plain (.number _) after

/-- Without its receiver a routine of lists refuses. -/
theorem unbound_renamed {op : Native} (lists : op.ofLists = true) (vs : List Value) :
    RenamedResult σ (Value.renamed σ) (op.run none vs m)
      (op.run none (vs.map (·.renamed σ)) m') := by
  cases op with
  | clock | read | readNum => cases lists
  | listInit =>
    show RenamedResult σ _ (Native.startList none (vs.getD 0 .nil) m)
      (Native.startList none ((vs.map (·.renamed σ)).getD 0 .nil) m')
    unfold Native.startList
    rw [getD_renamed, startSize_renamed]
    cases Native.startSize (vs.getD 0 .nil) <;> exact .error h
  | listGet | listSet | listAppend | listRemove | listPop => exact .error h

/-- A routine of lists with its receiver at hand. -/
theorem list_renamed (o : ObjectId) {op : Native} (lists : op.ofLists = true) (vs : List Value) :
    RenamedResult σ (Value.renamed σ) (op.run (some o) vs m)
      (op.run (some o) (vs.map (·.renamed σ)) m') := by
  have slots := h.store.slots o
  have refilled : ∀ xs : Array Value, Renamed σ (m.mapStore (·.refill o xs))
      (m'.mapStore (·.refill o (xs.map (·.renamed σ)))) := fun xs =>
    h.mapStore (h.store.refill o xs)
  have position : ∀ i, Native.index ((vs.map (·.renamed σ)).getD i .nil) (m'.store.slots o).size =
      Native.index (vs.getD i .nil) (m.store.slots o).size := fun i => by
    rw [getD_renamed, index_renamed, slots, Array.size_map]
  cases op with
  | clock | read | readNum => cases lists
  | listInit =>
    show RenamedResult σ _ (Native.startList (some o) _ m) (Native.startList (some o) _ m')
    rw [Native.startList_run, Native.startList_run, getD_renamed, startSize_renamed]
    cases Native.startSize (vs.getD 0 .nil) with
    | error cause => exact .error h
    | ok n =>
      have nils := refilled (Array.replicate n .nil)
      rw [Array.map_replicate] at nils
      exact .plain .nil nils
  | listGet =>
    show RenamedResult σ _ (Native.elementAt (some o) _ m) (Native.elementAt (some o) _ m')
    rw [Native.elementAt_run, Native.elementAt_run, position]
    cases Native.index (vs.getD 0 .nil) (m.store.slots o).size with
    | error cause => exact .error h
    | ok i =>
      dsimp only
      rw [slots, element_renamed]
      exact .ok h
  | listSet =>
    show RenamedResult σ _ (Native.replaceAt (some o) _ _ m) (Native.replaceAt (some o) _ _ m')
    rw [Native.replaceAt_run, Native.replaceAt_run, position, getD_renamed vs 1]
    cases Native.index (vs.getD 0 .nil) (m.store.slots o).size with
    | error cause => exact .error h
    | ok i => exact .ok (h.mapStore (h.store.modifySlots o Array.map_setIfInBounds.symm))
  | listAppend =>
    show RenamedResult σ _ (Native.appendTo (some o) _ m) (Native.appendTo (some o) _ m')
    have pushed := refilled ((m.store.slots o).push (vs.getD 0 .nil))
    rw [Array.map_push] at pushed
    rw [Native.appendTo_run, Native.appendTo_run, getD_renamed, slots]
    exact .plain .nil pushed
  | listRemove =>
    show RenamedResult σ _ (Native.removeFrom (some o) _ m) (Native.removeFrom (some o) _ m')
    have found : (m'.store.slots o).findIdx? (·.equals ((vs.map (·.renamed σ)).getD 0 .nil)) =
        (m.store.slots o).findIdx? (·.equals (vs.getD 0 .nil)) := by
      rw [slots, getD_renamed, Array.findIdx?_map]
      congr 1
      exact funext fun v => v.equals_renamed σ _
    rw [Native.removeFrom_run, Native.removeFrom_run, found]
    cases (m.store.slots o).findIdx? (·.equals (vs.getD 0 .nil)) with
    | none => exact .plain (.bool false) h
    | some i =>
      dsimp only
      rw [slots, erased_renamed]
      exact .plain (.bool true) (refilled _)
  | listPop =>
    show RenamedResult σ _ (Native.popAt (some o) _ m) (Native.popAt (some o) _ m')
    rw [Native.popAt_run, Native.popAt_run, position]
    cases Native.index (vs.getD 0 .nil) (m.store.slots o).size with
    | error cause => exact .error h
    | ok i =>
      dsimp only
      rw [slots, element_renamed, erased_renamed]
      exact .ok (refilled _)

/-- A supplied routine cannot tell identities apart, either. -/
theorem run_renamed (op : Native) (receiver : Option ObjectId) (vs : List Value) :
    RenamedResult σ (Value.renamed σ) (op.run receiver vs m)
      (op.run receiver (vs.map (·.renamed σ)) m') := by
  cases lists : op.ofLists with
  | true =>
    cases receiver with
    | none => exact unbound_renamed h lists vs
    | some o => exact list_renamed h o lists vs
  | false =>
    cases op with
    | clock => exact clockReading_renamed h
    | read => exact readText_renamed h
    | readNum => exact readNumber_renamed h
    | listInit | listGet | listSet | listAppend | listRemove | listPop => cases lists

end Machines

end Lox
