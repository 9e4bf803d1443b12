import Lox.Proofs.Run.Graph
import Lox.Proofs.Run.Growth
import Lox.Proofs.Run.History
import Lox.Proofs.Run.Holding
import Lox.Proofs.Tree.Parts

/-!
# Receivers

Which scopes bind an instance to `this`, and which instance: those that were opened when a method was
taken of it, and no others. In proper programs that never changes (`Receivers.Fits`). A function is an
initializer if the scope around it binds an instance and it has the name of initializers
(`Receivers.Function`).
-/

namespace Lox

open EStateM (Result)

/-- Of scopes and objects, as many as there are: for each scope the instance that it binds to `this`,
if it binds one. -/
structure Receivers where
  scopes : List (Option (Class × ObjectId))
  objects : Nat

/-- The value of a receiver. -/
abbrev receiverValue (p : Class × ObjectId) : Value := .instance p.1 p.2

/-- A method of a class is an initializer if it has the name of initializers. -/
def Closure.NamedFlag (closure : Closure) : Prop :=
  closure.declaration.Proper ∧
    closure.isInitializer = (closure.declaration.name.lexeme == initializerName)

/-- A method under its name. -/
def NamedEntry : String × Method → Prop
  | (name, .declared closure) => closure.NamedFlag ∧ closure.declaration.name.lexeme = name
  | (_, .native _) => True

def Class.Named (c : Class) : Prop := ∀ k ∈ c.upward, ∀ entry ∈ k.methods, NamedEntry entry

def Method.Named : Method → Prop
  | .declared closure => closure.NamedFlag
  | .native _ => True

theorem Class.Named.found {c : Class} (h : c.Named) {name : String} {method : Method}
    (found : c.findMethod? name = some method) : NamedEntry (name, method) := by
  obtain ⟨k, nearest⟩ := (Class.findMethod?_spec name c).1 method found
  obtain ⟨before, after, upward, -⟩ := nearest.split
  obtain ⟨above, below, table, -⟩ := List.lookup_eq_some_iff.1 nearest.own
  exact h k (by simp [upward]) (name, method) (by simp [table])

theorem NamedEntry.method {name : String} {method : Method} (h : NamedEntry (name, method)) :
    method.Named := by
  cases method with
  | declared closure => exact h.1
  | native op => trivial

theorem Class.Named.make {superclass : Option Class} (above : ∀ p, superclass = some p → p.Named)
    (id : Identity) (name : String) (env : Env) {methods : List FunctionDecl}
    (proper : FunctionDecl.ProperAll methods) :
    Class.Named ⟨id, name, superclass, methodTable env methods⟩ := by
  have own : ∀ entry ∈ methodTable env methods, NamedEntry entry := by
    intro entry mem
    obtain ⟨d, declared, rfl⟩ := List.mem_map.1 (List.mem_reverse.1 mem)
    exact ⟨⟨FunctionDecl.properAll_iff.1 proper d declared, rfl⟩, rfl⟩
  cases superclass with
  | none => exact List.forall_mem_singleton.2 own
  | some p => exact List.forall_mem_cons.2 ⟨own, above p rfl⟩

namespace Receivers

section Contents

variable (R : Receivers)

/-- The innermost scope binds no instance. -/
def Plain (env : Env) : Prop := ∃ f outer, env = f :: outer ∧ R.scopes[f]? = some none

/-- The function is an initializer if the innermost scope around it binds an instance and it has the
name of initializers. -/
def Function (closure : Closure) : Prop :=
  closure.declaration.Proper ∧ ∃ f outer receiver, closure.env = f :: outer ∧
    R.scopes[f]? = some receiver ∧ closure.isInitializer =
      (receiver.isSome && closure.declaration.name.lexeme == initializerName)

def Holds : Value → Prop
  | .callable (.function _ closure) => R.Function closure
  | .callable (.native _ _ receiver) => ∀ o, receiver = some o → o < R.objects
  | .callable (.class c) => c.Named
  | .instance c o => c.Named ∧ o < R.objects
  | _ => True

structure Fits (m : Machine) : Prop where
  env : R.Plain m.env
  store : m.store.All R.Holds
  scopes : R.scopes.length = m.store.frames.size
  objects : R.objects = m.store.objects.size
  bound : ∀ {f : FrameId} {receiver : Option (Class × ObjectId)}, R.scopes[f]? = some receiver →
    m.store.getHere? f "this" = receiver.map receiverValue

/-- What is about to be done is done to what is there, and in proper programs. -/
def Involves : Act → Prop
  | .statement s => s.Proper
  | .expression e => e.Proper
  | .function closure arguments => R.Function closure ∧ ∀ v ∈ arguments, R.Holds v
  | .native _ receiver arguments =>
    (∀ o, receiver = some o → o < R.objects) ∧ ∀ v ∈ arguments, R.Holds v
  | .construct c arguments => c.Named ∧ ∀ v ∈ arguments, R.Holds v
  | .output _ => True

structure Later (S : Receivers) : Prop where
  scopes : R.scopes <+: S.scopes
  objects : R.objects ≤ S.objects

end Contents

/-! ### Growth -/

namespace Later

variable {R S T : Receivers}

theorem refl (R : Receivers) : R.Later R := ⟨List.prefix_refl _, Nat.le_refl _⟩

theorem trans (h : R.Later S) (k : S.Later T) : R.Later T :=
  ⟨h.scopes.trans k.scopes, Nat.le_trans h.objects k.objects⟩

variable (h : R.Later S)

include h

theorem plain {env : Env} (plain : R.Plain env) : S.Plain env := by
  obtain ⟨f, outer, same, none⟩ := plain
  exact ⟨f, outer, same, getElem?_later h.scopes none⟩

theorem function {closure : Closure} (function : R.Function closure) : S.Function closure := by
  obtain ⟨proper, f, outer, receiver, same, known, flag⟩ := function
  exact ⟨proper, f, outer, receiver, same, getElem?_later h.scopes known, flag⟩

theorem native {receiver : Option ObjectId} (inside : ∀ o, receiver = some o → o < R.objects) :
    ∀ o, receiver = some o → o < S.objects :=
  fun o is => Nat.lt_of_lt_of_le (inside o is) h.objects

theorem holds {v : Value} (holds : R.Holds v) : S.Holds v := by
  cases v with
  | callable c =>
    cases c with
    | function id closure => exact h.function holds
    | native id op receiver => exact h.native holds
    | «class» c => exact holds
  | «instance» c o => exact ⟨holds.1, Nat.lt_of_lt_of_le holds.2 h.objects⟩
  | nil | bool | number | string => trivial

end Later

/-! ### Machines -/

namespace Fits

variable {R : Receivers} {m : Machine}

theorem of_same {n : Machine} (h : R.Fits m) (store : n.store = m.store) (env : n.env = m.env) :
    R.Fits n where
  env := env ▸ h.env
  store := store ▸ h.store
  scopes := store ▸ h.scopes
  objects := store ▸ h.objects
  bound known := store ▸ h.bound known

theorem inEnv (h : R.Fits m) {env : Env} (plain : R.Plain env) : R.Fits { m with env } :=
  { h with env := plain }

/-- A name is bound that is not `this`. -/
theorem put (h : R.Fits m) {v : Value} (own : R.Holds v) (frame : FrameId) {name : String}
    (other : name ≠ "this") : R.Fits (m.mapStore (·.put frame name v)) where
  env := h.env
  store := h.store.put own frame name
  scopes := h.scopes.trans (Array.size_modify).symm
  objects := h.objects
  bound known := (getHere?_put_other m.store frame other v _).trans (h.bound known)

theorem define (h : R.Fits m) {v : Value} (own : R.Holds v) (env : Env) {name : String}
    (other : name ≠ "this") : R.Fits (m.mapStore (·.define env name v)) := by
  cases env with
  | nil => exact h
  | cons frame env => exact h.put own frame other

theorem setField (h : R.Fits m) {v : Value} (own : R.Holds v) (o : ObjectId) (name : String) :
    R.Fits (m.mapStore (·.setField o name v)) where
  env := h.env
  store := h.store.setField own o name
  scopes := h.scopes
  objects := h.objects.trans (Array.size_modify).symm
  bound := h.bound

end Fits

section Additions

variable (R : Receivers)

/-- A new scope, which binds an instance to `this` or none. -/
def addScope (receiver : Option (Class × ObjectId)) : Receivers :=
  { R with scopes := R.scopes ++ [receiver] }

def addObject : Receivers := { R with objects := R.objects + 1 }

variable {R} {m : Machine}

theorem later_addScope (receiver : Option (Class × ObjectId)) : R.Later (R.addScope receiver) :=
  ⟨List.prefix_append _ _, Nat.le_refl _⟩

theorem later_addObject : R.Later R.addObject := ⟨List.prefix_refl _, Nat.le_succ _⟩

theorem addScope_last (receiver : Option (Class × ObjectId)) :
    (R.addScope receiver).scopes[R.scopes.length]? = some receiver :=
  List.getElem?_concat_length

/-- A frame that is not there yet binds nothing. -/
theorem Fits.unbound (h : R.Fits m) (x : String) : m.store.getHere? R.scopes.length x = none := by
  unfold Store.getHere?
  rw [Array.getElem?_eq_none (Nat.le_of_eq h.scopes.symm)]
  rfl

theorem Fits.child (h : R.Fits m) (env : Env) :
    (R.addScope none).Fits (m.withStore (·.child env)).2 where
  env := (later_addScope none).plain h.env
  store := (h.store.child env).mono fun _ => (later_addScope none).holds
  scopes := by
    show (R.scopes ++ [none]).length = (m.store.frames.push ∅).size
    rw [List.length_append, h.scopes, Array.size_push, List.length_singleton]
  objects := h.objects
  bound {f receiver} known := by
    refine (m.store.getHere?_child env f "this").trans ?_
    obtain old | ⟨rfl, rfl⟩ := of_getElem?_concat known
    · exact h.bound old
    · exact h.unbound "this"

/-- The scope of a method that is taken of an instance. -/
theorem Fits.receive (h : R.Fits m) (env : Env) {p : Class × ObjectId} (own : R.Holds (receiverValue p)) :
    (R.addScope (some p)).Fits (m.receive env (receiverValue p)) where
  env := (later_addScope (some p)).plain h.env
  store := ((h.store.child env).put own _ "this").mono fun _ => (later_addScope (some p)).holds
  scopes := by
    refine Eq.trans ?_ (size_child_put m.store env "this" (receiverValue p)).symm
    rw [← h.scopes]
    exact List.length_append
  objects := h.objects
  bound {f receiver} known := by
    refine (getHere?_child_put m.store env "this" _ f "this").trans ?_
    obtain old | ⟨rfl, rfl⟩ := of_getElem?_concat known
    · have inside := (List.getElem?_eq_some_iff.1 old).1
      rw [if_neg fun both => Nat.ne_of_lt (h.scopes ▸ inside) both.1]
      exact h.bound old
    · exact if_pos ⟨h.scopes, rfl⟩

theorem Fits.allocate (h : R.Fits m) : R.addObject.Fits (m.withStore (·.allocate)).2 where
  env := h.env
  store := h.store.allocate.mono fun _ => later_addObject.holds
  scopes := h.scopes
  objects := (congrArg (· + 1) h.objects).trans (Array.size_push _).symm
  bound := h.bound

end Additions

/-! ### Supplied routines -/

/-- Whatever has no references is in all worlds. -/
theorem holds_plain {R : Receivers} (v : Value) (plain : v.Plain) : R.Holds v := by
  cases plain <;> trivial

end Receivers

/-- No routine makes objects. -/
theorem Native.run_objects (op : Native) (receiver : Option ObjectId) (arguments : List Value)
    (m : Machine) : (final (op.run receiver arguments m)).store.objects.size = m.store.objects.size := by
  cases lists : op.ofLists with
  | false =>
    exact congrArg (·.objects.size) (run_elsewhere lists receiver arguments m).store_final
  | true =>
    cases receiver with
    | none => rw [run_unbound lists arguments m]
    | some o =>
      obtain ⟨call, same⟩ := run_call lists arguments
      rw [same o m]
      exact (run_confined o call m).size

end Lox
