import Std.Data.TreeMap
import Lox.Value

/-!
# The store

Frames hold the bindings of scopes and objects the state of instances. Both are only ever added.
Every operation on bindings goes by an environment, whose frames it searches outward or counts.
-/

namespace Lox

/-- Names with their values. -/
abbrev Bindings := Std.TreeMap String Value

/-- The state of an instance: its fields, and the elements if it is a list. -/
structure Object where
  fields : Bindings
  slots : Array Value

structure Store where
  frames : Array Bindings
  objects : Array Object

namespace Store

def empty : Store := ⟨#[], #[]⟩

/-! ### Frames -/

/-- A new scope inside `env`, with nothing in it yet. -/
def child (s : Store) (env : Env) : Env × Store :=
  (s.frames.size :: env, { s with frames := s.frames.push ∅ })

def getHere? (s : Store) (frame : FrameId) (name : String) : Option Value :=
  (s.frames[frame]?).bind (·[name]?)

def binds (s : Store) (name : String) (frame : FrameId) : Bool := (s.getHere? frame name).isSome

/-- Binds a name in one frame, anew or again. -/
def put (s : Store) (frame : FrameId) (name : String) (v : Value) : Store :=
  { s with frames := s.frames.modify frame (·.insert name v) }

/-- Binds a name in the innermost scope, anew or again. -/
def define (s : Store) (env : Env) (name : String) (v : Value) : Store :=
  match env with
  | [] => s
  | frame :: _ => s.put frame name v

def get? (s : Store) (env : Env) (name : String) : Option Value :=
  env.findSome? (s.getHere? · name)

/-- The nearest scope that binds a name. -/
def owner? (s : Store) (env : Env) (name : String) : Option FrameId := env.find? (s.binds name)

/-- Changes the value of a name in the nearest scope that binds it. -/
def assign? (s : Store) (env : Env) (name : String) (v : Value) : Option Store :=
  (s.owner? env name).map (s.put · name v)

/-- The value of a name in the scope exactly `distance` hops out. -/
def getAt? (s : Store) (env : Env) (distance : Nat) (name : String) : Option Value :=
  (env[distance]?).bind (s.getHere? · name)

/-- The scope exactly `distance` hops out, if it binds a name. -/
def ownerAt? (s : Store) (env : Env) (distance : Nat) (name : String) : Option FrameId :=
  (env[distance]?).filter (s.binds name)

/-- Changes the value of a name in the scope exactly `distance` hops out. -/
def assignAt? (s : Store) (env : Env) (distance : Nat) (name : String) (v : Value) :
    Option Store :=
  (s.ownerAt? env distance name).map (s.put · name v)

theorem getHere?_child (s : Store) (env : Env) (frame : FrameId) (name : String) :
    (s.child env).2.getHere? frame name = s.getHere? frame name := by
  unfold child getHere?
  simp only [Array.getElem?_push]
  split
  · next h => subst h; simp
  · rfl

theorem getHere?_put (s : Store) (frame other : FrameId) (name key : String) (v : Value)
    (h : frame < s.frames.size) :
    (s.put frame name v).getHere? other key =
      if other = frame ∧ key = name then some v else s.getHere? other key := by
  unfold put getHere?
  simp only [Array.getElem?_modify]
  by_cases same : frame = other
  · subst same
    rw [Array.getElem?_eq_getElem h]
    simp [Std.TreeMap.getElem?_insert, Std.LawfulEqCmp.compare_eq_iff_eq, @eq_comm _ key name]
  · simp [same, Ne.symm same]

/-! ### Objects -/

/-- A new object without fields and elements. -/
def allocate (s : Store) : ObjectId × Store :=
  (s.objects.size, { s with objects := s.objects.push ⟨∅, #[]⟩ })

def field? (s : Store) (object : ObjectId) (name : String) : Option Value :=
  (s.objects[object]?).bind (·.fields[name]?)

def setField (s : Store) (object : ObjectId) (name : String) (v : Value) : Store :=
  { s with
    objects := s.objects.modify object fun o => { o with fields := o.fields.insert name v } }

def slots (s : Store) (object : ObjectId) : Array Value :=
  ((s.objects[object]?).map Object.slots).getD #[]

def modifySlots (s : Store) (object : ObjectId) (f : Array Value → Array Value) : Store :=
  { s with objects := s.objects.modify object fun o => { o with slots := f o.slots } }

end Store

end Lox
