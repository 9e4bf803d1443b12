import Lox.Native
import Lox.Proofs.Grammar.Reading
import Lox.Proofs.Run.Objects

/-!
# What supplied routines do

The clock and the input leave the store alone (`run_elsewhere`). A routine of lists with its receiver at
hand makes one change to the store, or none if it ends with a fault.
-/

namespace Lox

/-- A value that refers to nothing in the store. -/
inductive Value.Plain : Value → Prop
  | nil : Plain .nil
  | bool (b : Bool) : Plain (.bool b)
  | number (x : Float) : Plain (.number x)
  | string (t : String) : Plain (.string t)

namespace Native

open EStateM (Result)

/-- The routines that work on the elements of their receiver. -/
def ofLists : Native → Bool
  | .clock => false
  | .read => false
  | .readNum => false
  | .listInit => true
  | .listGet => true
  | .listSet => true
  | .listAppend => true
  | .listRemove => true
  | .listPop => true

/-! ### Clock and input -/

/-- What leaves store and scopes alone and ends with a plain value or a fault of the input. -/
inductive Elsewhere (m : Machine) : Result NativeFault Machine Value → Prop
  | ok {v : Value} {n : Machine} (store : n.store = m.store) (env : n.env = m.env) (plain : v.Plain) :
      Elsewhere m (.ok v n)
  | error {cause : NativeFault} {n : Machine} (store : n.store = m.store) (env : n.env = m.env)
      (other : cause ≠ .noReceiver) : Elsewhere m (.error cause n)

theorem nextLine_run (m : Machine) : nextLine m =
    .ok (Input.readLine m.input).1 { m with input := (Input.readLine m.input).2 } := rfl

theorem readText_elsewhere (m : Machine) : Elsewhere m (readText m) := by
  rw [readText, Grammar.bind_of_ok (nextLine_run m)]
  cases (Input.readLine m.input).1 with
  | text s => exact .ok rfl rfl (.string s)
  | ended => exact .ok rfl rfl .nil
  | fault cause => exact .error rfl rfl nofun

theorem readNumber_elsewhere (m : Machine) : Elsewhere m (readNumber m) := by
  rw [readNumber, Grammar.bind_of_ok (nextLine_run m)]
  cases (Input.readLine m.input).1 with
  | text s =>
    dsimp only
    cases Number.ofNumeral? (Text.trim s.toList) with
    | some x => exact .ok rfl rfl (.number x)
    | none => exact .error rfl rfl nofun
  | ended => exact .error rfl rfl nofun
  | fault cause => exact .error rfl rfl nofun

theorem run_elsewhere {op : Native} (other : op.ofLists = false) (receiver : Option ObjectId)
    (arguments : List Value) (m : Machine) : Elsewhere m (op.run receiver arguments m) := by
  cases op with
  | clock => exact .ok rfl rfl (.number _)
  | read => exact readText_elsewhere m
  | readNum => exact readNumber_elsewhere m
  | listInit | listGet | listSet | listAppend | listRemove | listPop => cases other

/-! ### Lists -/

section Receiver

variable (o : ObjectId) (m : Machine)

/-- A routine that changes the elements and counts them anew before it answers. -/
theorem modifySlots_sync (f : Array Value → Array Value) (v : Value) :
    (do modifySlots o f; syncLength o; return v : Action Value) m =
      .ok v (m.mapStore (·.refill o (f (m.store.slots o)))) :=
  congrArg (fun store => Result.ok v ({ m with store } : Machine)) (m.store.setField_modifySlots o f)

theorem startList_run (v : Value) : startList (some o) v m =
    match startSize v with
    | .ok n => .ok .nil (m.mapStore (·.refill o (Array.replicate n .nil)))
    | .error cause => .error cause m := by
  unfold startList
  cases startSize v with
  | error cause => rfl
  | ok n => exact modifySlots_sync o m _ _

theorem elementAt_run (v : Value) : elementAt (some o) v m =
    match index v (m.store.slots o).size with
    | .ok i => .ok ((m.store.slots o).getD i .nil) m
    | .error cause => .error cause m := by
  show (do
    let i ← liftExcept (index v (m.store.slots o).size)
    return (m.store.slots o).getD i .nil : Action Value) m = _
  cases index v (m.store.slots o).size <;> rfl

theorem replaceAt_run (v w : Value) : replaceAt (some o) v w m =
    match index v (m.store.slots o).size with
    | .ok i => .ok w (m.mapStore (·.modifySlots o (·.setIfInBounds i w)))
    | .error cause => .error cause m := by
  show (do
    let i ← liftExcept (index v (m.store.slots o).size)
    modifySlots o (·.setIfInBounds i w)
    return w : Action Value) m = _
  cases index v (m.store.slots o).size <;> rfl

theorem appendTo_run (v : Value) : appendTo (some o) v m =
    .ok .nil (m.mapStore (·.refill o ((m.store.slots o).push v))) :=
  modifySlots_sync o m _ _

theorem removeFrom_run (v : Value) : removeFrom (some o) v m =
    match (m.store.slots o).findIdx? (·.equals v) with
    | some i => .ok (.bool true) (m.mapStore (·.refill o ((m.store.slots o).eraseIdxIfInBounds i)))
    | none => .ok (.bool false) m := by
  show (match (m.store.slots o).findIdx? (·.equals v) with
    | some i => do
      modifySlots o (·.eraseIdxIfInBounds i)
      syncLength o
      return .bool true
    | none => return .bool false : Action Value) m = _
  cases (m.store.slots o).findIdx? (·.equals v) with
  | some i => exact modifySlots_sync o m _ _
  | none => rfl

theorem popAt_run (v : Value) : popAt (some o) v m =
    match index v (m.store.slots o).size with
    | .ok i => .ok ((m.store.slots o).getD i .nil)
      (m.mapStore (·.refill o ((m.store.slots o).eraseIdxIfInBounds i)))
    | .error cause => .error cause m := by
  show (do
    let i ← liftExcept (index v (m.store.slots o).size)
    let elements ← slots o
    modifySlots o (·.eraseIdxIfInBounds i)
    syncLength o
    return elements.getD i .nil : Action Value) m = _
  cases index v (m.store.slots o).size with
  | error cause => rfl
  | ok i => exact modifySlots_sync o m _ _

end Receiver

end Native

end Lox
