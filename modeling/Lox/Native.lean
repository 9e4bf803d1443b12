import Lox.Machine
import Lox.Number.Numeral
import Lox.Text.Blank

/-!
# Supplied routines

What a program finds in its globals before it defines any: the clock, the input and the class of
lists. A list is an instance with elements; its field `length` follows their number.
-/

namespace Lox.Native

/-- What a supplied routine does: it ends with a value or refuses. -/
abbrev Action := EStateM NativeFault Machine

/-! ### Clock and input -/

def clockReading : Action Value :=
  modifyGet fun m => (.number (m.clock m.ticks), { m with ticks := m.ticks + 1 })

def nextLine : Action Input.Line :=
  modifyGet fun m =>
    let (line, input) := Input.readLine m.input
    (line, { m with input })

/-- The next line as a string, at the end of input nothing. -/
def readText : Action Value := do
  match ← nextLine with
  | .text s => return .string s
  | .ended => return .nil
  | .fault cause => throw (.readFailed cause)

/-- The number that the next line denotes, blanks around it apart. -/
def readNumber : Action Value := do
  match ← nextLine with
  | .text s =>
    match Number.ofNumeral? (Text.trim s.toList) with
    | some x => return .number x
    | none => throw .notANumeral
  | .ended => throw .notANumeral
  | .fault cause => throw (.readFailed cause)

/-! ### Lists -/

/-- The most elements a list can start with. -/
def mostElements : Nat := 0x1000000

def natural? : Value → Option Nat
  | .number x => Number.toNat? x
  | _ => none

/-- The element that a value points at, among `size` of them. -/
def index (v : Value) (size : Nat) : Except NativeFault Nat :=
  match natural? v with
  | some i => if i < size then .ok i else .error .indexOutOfRange
  | none => .error .indexNotNatural

def startSize (v : Value) : Except NativeFault Nat :=
  match natural? v with
  | some n => if n ≤ mostElements then .ok n else .error .sizeTooLarge
  | none => .error .sizeNotNatural

/-- The list a method was taken from. -/
def receiver (object : Option ObjectId) : Action ObjectId :=
  match object with
  | some o => return o
  | none => throw .noReceiver

def slots (object : ObjectId) : Action (Array Value) := return (← get).store.slots object

def size (object : ObjectId) : Action Nat := return (← slots object).size

def modifySlots (object : ObjectId) (f : Array Value → Array Value) : Action Unit :=
  modify (·.mapStore (·.modifySlots object f))

/-- Sets the field `length` to the number of elements. -/
def syncLength (object : ObjectId) : Action Unit := do
  let n ← size object
  modify (·.mapStore (·.setField object "length" (.number n.toFloat)))

def startList (object : Option ObjectId) (count : Value) : Action Value := do
  let n ← liftExcept (startSize count)
  let o ← receiver object
  modifySlots o fun _ => Array.replicate n .nil
  syncLength o
  return .nil

def elementAt (object : Option ObjectId) (position : Value) : Action Value := do
  let elements ← slots (← receiver object)
  let i ← liftExcept (index position elements.size)
  return elements.getD i .nil

/-- Replaces the element at an index and yields the new one. -/
def replaceAt (object : Option ObjectId) (position v : Value) : Action Value := do
  let o ← receiver object
  let i ← liftExcept (index position (← size o))
  modifySlots o (·.setIfInBounds i v)
  return v

def appendTo (object : Option ObjectId) (v : Value) : Action Value := do
  let o ← receiver object
  modifySlots o (·.push v)
  syncLength o
  return .nil

/-- Removes the first element equal to `v`, and whether there was one. -/
def removeFrom (object : Option ObjectId) (v : Value) : Action Value := do
  let o ← receiver object
  match (← slots o).findIdx? (·.equals v) with
  | some i =>
    modifySlots o (·.eraseIdxIfInBounds i)
    syncLength o
    return .bool true
  | none => return .bool false

def popAt (object : Option ObjectId) (position : Value) : Action Value := do
  let o ← receiver object
  let i ← liftExcept (index position (← size o))
  let v := (← slots o).getD i .nil
  modifySlots o (·.eraseIdxIfInBounds i)
  syncLength o
  return v

/-! ### All of them -/

/-- Runs a routine. Missing arguments count as nil; a call checks their number first. -/
def run (op : Native) (object : Option ObjectId) (arguments : List Value) : Action Value :=
  let first := arguments.getD 0 .nil
  let second := arguments.getD 1 .nil
  match op with
  | .clock => clockReading
  | .read => readText
  | .readNum => readNumber
  | .listInit => startList object first
  | .listGet => elementAt object first
  | .listSet => replaceAt object first second
  | .listAppend => appendTo object first
  | .listRemove => removeFrom object first
  | .listPop => popAt object first

def inputClass : Class :=
  ⟨1, "Input", none, [("read", .native .read), ("readNum", .native .readNum)]⟩

def listClass : Class :=
  ⟨2, "List", none,
    [(initializerName, .native .listInit), ("get", .native .listGet), ("set", .native .listSet),
      ("append", .native .listAppend), ("remove", .native .listRemove), ("pop", .native .listPop)]⟩

end Native

namespace Machine

def supplied : List (String × Value) :=
  [("clock", .callable (.native 0 .clock none)),
    ("input", .instance Native.inputClass 0),
    ("List", .callable (.class Native.listClass))]

/-- The store before a program runs: the globals, and the object behind `input`. -/
def startStore : Store :=
  let globals := Store.empty.child []
  let objects := globals.2.allocate
  supplied.foldl (fun s (name, v) => s.put globalFrame name v) objects.2

def start (input : List UInt8) (sink : Sink) (clock : Nat → Float) : Machine where
  store := startStore
  env := globalEnv
  distances := ∅
  input := input
  sink := sink
  clock := clock
  ticks := 0
  nextIdentity := 3
  nextNode := 0

end Machine

end Lox
