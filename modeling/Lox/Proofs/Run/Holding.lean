import Lox.Proofs.Run.History

/-!
# What a store holds

A property of values that those without references have, and that is true of all values in a store,
stays true of them when a supplied routine is run with arguments that have it (`Native.run_all`).
-/

namespace Lox

open EStateM (Result)

/-- All values in the store have the property. -/
structure Store.All (P : Value → Prop) (s : Store) : Prop where
  bindings : ∀ {f x v}, s.getHere? f x = some v → P v
  fields : ∀ {o x v}, s.field? o x = some v → P v
  elements : ∀ {o v}, v ∈ s.slots o → P v

namespace Store.All

variable {P : Value → Prop} {s : Store}

theorem mono {Q : Value → Prop} (h : s.All P) (sub : ∀ v, P v → Q v) : s.All Q :=
  ⟨fun found => sub _ (h.bindings found), fun found => sub _ (h.fields found),
    fun mem => sub _ (h.elements mem)⟩

/-- Whatever is new in a store has the property. -/
theorem change {t : Store} (h : s.All P)
    (bindings : ∀ f x v, t.getHere? f x = some v → s.getHere? f x = some v ∨ P v)
    (fields : ∀ o x v, t.field? o x = some v → s.field? o x = some v ∨ P v)
    (elements : ∀ o, ∀ v ∈ t.slots o, v ∈ s.slots o ∨ P v) : t.All P where
  bindings found := (bindings _ _ _ found).elim h.bindings id
  fields found := (fields _ _ _ found).elim h.fields id
  elements mem := (elements _ _ mem).elim h.elements id

section Changes

variable (h : s.All P)

include h

theorem child (env : Env) : (s.child env).2.All P :=
  h.change (fun f x _ found => .inl ((s.getHere?_child env f x).symm.trans found))
    (fun _ _ _ found => .inl found) fun _ _ mem => .inl mem

theorem put {v : Value} (own : P v) (frame : FrameId) (name : String) :
    (s.put frame name v).All P := by
  refine h.change (fun f x w found => ?_) (fun _ _ _ found => .inl found) fun _ _ mem => .inl mem
  by_cases inside : frame < s.frames.size
  · rw [s.getHere?_put frame f name x v inside] at found
    split at found
    · cases found
      exact .inr own
    · exact .inl found
  · rw [getHere?_put_outside s frame name v inside] at found
    exact .inl found

theorem allocate : s.allocate.2.All P :=
  h.change (fun _ _ _ found => .inl found)
    (fun o x _ found => .inl ((field?_allocate s o x).symm.trans found))
    fun o _ mem => .inl (slots_allocate s o ▸ mem)

theorem setField {v : Value} (own : P v) (o : ObjectId) (name : String) :
    (s.setField o name v).All P := by
  refine h.change (fun _ _ _ found => .inl found) (fun p x w found => ?_)
    fun p w mem => .inl (slots_setField s p o name v ▸ mem)
  rw [field?_setField] at found
  split at found
  · cases found
    exact .inr own
  · exact .inl found

theorem modifySlots {f : Array Value → Array Value} (o : ObjectId) (own : ∀ v ∈ f (s.slots o), P v) :
    (s.modifySlots o f).All P := by
  refine h.change (fun _ _ _ found => .inl found)
    (fun p x w found => .inl ((field?_modifySlots s p o f x).symm.trans found)) fun p w mem => ?_
  rw [slots_modifySlots] at mem
  split at mem
  · next here =>
    obtain ⟨rfl, -⟩ := here
    exact .inr (own w mem)
  · exact .inl mem

theorem refill (plain : ∀ v : Value, v.Plain → P v) {xs : Array Value} (o : ObjectId)
    (own : ∀ v ∈ xs, P v) : (s.refill o xs).All P :=
  (h.modifySlots o own).setField (plain _ (.number _)) o "length"

end Changes

/-! ### Finding values -/

variable (h : s.All P)

include h

theorem getAt? {env : Env} {d : Nat} {x : String} {v : Value} (found : s.getAt? env d x = some v) :
    P v := by
  obtain ⟨f, -, here⟩ := Option.bind_eq_some_iff.1 found
  exact h.bindings here

theorem get? {env : Env} {x : String} {v : Value} (found : s.get? env x = some v) : P v := by
  obtain ⟨f, -, here⟩ := List.exists_of_findSome?_eq_some found
  exact h.bindings here

end Store.All

theorem Machine.valueAt?_all {P : Value → Prop} {m : Machine} (h : m.store.All P) {id : NodeId}
    {x : String} {v : Value} (found : m.valueAt? id x = some v) : P v := by
  unfold Machine.valueAt? at found
  split at found
  · exact h.getAt? found
  · exact h.get? found

/-! ### Supplied routines -/

namespace Native

/-- What a routine leaves that began at `m`. It opens no scope and makes no callable. -/
structure Serves (P : Value → Prop) (m : Machine) (r : Result NativeFault Machine Value) : Prop where
  store : (final r).store.All P
  frames : (final r).store.frames = m.store.frames
  env : (final r).env = m.env
  nextIdentity : (final r).nextIdentity = m.nextIdentity
  value : ∀ v n, r = .ok v n → P v

variable {P : Value → Prop} (plain : ∀ v : Value, v.Plain → P v) {m : Machine}

theorem serves_error (all : m.store.All P) (cause : NativeFault) : Serves P m (.error cause m) :=
  ⟨all, rfl, rfl, rfl, nofun⟩

theorem serves_ok {v : Value} {t : Store} (all : t.All P) (frames : t.frames = m.store.frames)
    (own : P v) : Serves P m (.ok v { m with store := t }) := by
  refine ⟨all, frames, rfl, rfl, fun w n same => ?_⟩
  cases same
  exact own

/-- An input that was read from and a clock that was read are not the store's affair. -/
theorem Serves.of_start (input : List UInt8) (ticks : Nat) {r : Result NativeFault Machine Value}
    (h : Serves P { m with input, ticks } r) : Serves P m r :=
  ⟨h.store, h.frames, h.env, h.nextIdentity, h.value⟩

include plain in
/-- The clock and the input do not touch the store. -/
theorem beside_serves (all : m.store.All P) {op : Native} (lists : op.ofLists = false)
    (receiver : Option ObjectId) (arguments : List Value) :
    Serves P m (op.run receiver arguments m) := by
  cases op with
  | listInit | listGet | listSet | listAppend | listRemove | listPop => cases lists
  | clock =>
    refine Serves.of_start m.input (m.ticks + 1) ?_
    exact serves_ok all rfl (plain _ (.number _))
  | read =>
    show Serves P m (readText m)
    rw [readText, Grammar.bind_of_ok (nextLine_run m)]
    refine Serves.of_start (Input.readLine m.input).2 m.ticks ?_
    cases (Input.readLine m.input).1 with
    | text s => exact serves_ok all rfl (plain _ (.string s))
    | ended => exact serves_ok all rfl (plain _ .nil)
    | fault cause => exact serves_error (m := { m with input := (Input.readLine m.input).2 }) all _
  | readNum =>
    show Serves P m (readNumber m)
    rw [readNumber, Grammar.bind_of_ok (nextLine_run m)]
    refine Serves.of_start (Input.readLine m.input).2 m.ticks ?_
    cases (Input.readLine m.input).1 with
    | text s =>
      dsimp only
      cases Number.ofNumeral? (Text.trim s.toList) with
      | some x => exact serves_ok all rfl (plain _ (.number x))
      | none => exact serves_error (m := { m with input := (Input.readLine m.input).2 }) all _
    | ended => exact serves_error (m := { m with input := (Input.readLine m.input).2 }) all _
    | fault cause => exact serves_error (m := { m with input := (Input.readLine m.input).2 }) all _

/-- Without its receiver a routine of lists refuses. -/
theorem unbound_serves (all : m.store.All P) {op : Native} (lists : op.ofLists = true)
    (arguments : List Value) : Serves P m (op.run none arguments m) := by
  cases op with
  | clock | read | readNum => cases lists
  | listInit =>
    show Serves P m (startList none (arguments.getD 0 .nil) m)
    unfold startList
    cases startSize (arguments.getD 0 .nil) <;> exact serves_error all _
  | listGet | listSet | listAppend | listRemove | listPop => exact serves_error all .noReceiver

include plain

/-- A routine of lists with its receiver at hand. -/
theorem list_serves (all : m.store.All P) (o : ObjectId) {op : Native} (lists : op.ofLists = true)
    {arguments : List Value} (given : ∀ i, P (arguments.getD i .nil)) :
    Serves P m (op.run (some o) arguments m) := by
  have element : ∀ i, P ((m.store.slots o).getD i .nil) := by
    intro i
    rw [Array.getD_eq_getD_getElem?]
    cases found : (m.store.slots o)[i]? with
    | none => exact plain _ .nil
    | some v => exact all.elements (Array.mem_of_getElem? found)
  have erased : ∀ i, ∀ w ∈ (m.store.slots o).eraseIdxIfInBounds i, P w := by
    intro i w mem
    rw [← Array.mem_toList_iff, Array.toList_eraseIdxIfInBounds] at mem
    exact all.elements (Array.mem_toList_iff.1 (List.mem_of_mem_eraseIdx mem))
  have refilled : ∀ {xs : Array Value} {v : Value}, (∀ w ∈ xs, P w) → P v →
      Serves P m (.ok v (m.mapStore (·.refill o xs))) := fun own value =>
    serves_ok (all.refill plain o own) rfl value
  cases op with
  | clock | read | readNum => cases lists
  | listInit =>
    show Serves P m (startList (some o) _ m)
    rw [startList_run]
    cases startSize (arguments.getD 0 .nil) with
    | error cause => exact serves_error all cause
    | ok n =>
      refine refilled (fun w mem => ?_) (plain _ .nil)
      rw [(Array.mem_replicate.1 mem).2]
      exact plain _ .nil
  | listGet =>
    show Serves P m (elementAt (some o) _ m)
    rw [elementAt_run]
    cases index (arguments.getD 0 .nil) (m.store.slots o).size with
    | error cause => exact serves_error all cause
    | ok i => exact serves_ok all rfl (element i)
  | listSet =>
    show Serves P m (replaceAt (some o) _ _ m)
    rw [replaceAt_run]
    cases index (arguments.getD 0 .nil) (m.store.slots o).size with
    | error cause => exact serves_error all cause
    | ok i =>
      refine serves_ok (all.modifySlots o fun w mem => ?_) rfl (given 1)
      obtain old | rfl := Array.mem_or_eq_of_mem_setIfInBounds mem
      · exact all.elements old
      · exact given 1
  | listAppend =>
    show Serves P m (appendTo (some o) _ m)
    rw [appendTo_run]
    refine refilled (fun w mem => ?_) (plain _ .nil)
    obtain old | rfl := Array.mem_push.1 mem
    · exact all.elements old
    · exact given 0
  | listRemove =>
    show Serves P m (removeFrom (some o) _ m)
    rw [removeFrom_run]
    cases (m.store.slots o).findIdx? (·.equals (arguments.getD 0 .nil)) with
    | some i => exact refilled (erased i) (plain _ (.bool true))
    | none => exact serves_ok all rfl (plain _ (.bool false))
  | listPop =>
    show Serves P m (popAt (some o) _ m)
    rw [popAt_run]
    cases index (arguments.getD 0 .nil) (m.store.slots o).size with
    | error cause => exact serves_error all cause
    | ok i => exact refilled (erased i) (element i)

theorem run_all (all : m.store.All P) (op : Native) (receiver : Option ObjectId)
    {arguments : List Value} (given : ∀ v ∈ arguments, P v) :
    Serves P m (op.run receiver arguments m) := by
  have argument : ∀ i, P (arguments.getD i .nil) := by
    intro i
    rw [List.getD_eq_getElem?_getD]
    cases found : arguments[i]? with
    | none => exact plain _ .nil
    | some v => exact given v (List.mem_of_getElem? found)
  cases lists : op.ofLists with
  | false => exact beside_serves plain all lists receiver arguments
  | true =>
    cases receiver with
    | none => exact unbound_serves all lists arguments
    | some o => exact list_serves plain all o lists argument

end Native

end Lox
