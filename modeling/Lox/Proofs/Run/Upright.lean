import Lox.Proofs.Run.Dispatch
import Lox.Proofs.Run.Routines
import Lox.Proofs.Run.Stable

/-!
# Well-formed machines

Environments end at the globals and all their frames are there; instances stand for objects that are
there; a routine of lists that was taken has its list. Nothing that is once well formed ceases to be,
as frames and objects are only ever added (`Store.Before`).
-/

namespace Lox

/-! ### Growth -/

namespace Store

/-- All frames and objects are still there. -/
structure Before (s t : Store) : Prop where
  frames : s.frames.size ≤ t.frames.size
  objects : s.objects.size ≤ t.objects.size

namespace Before

variable {s t u : Store}

theorem refl (s : Store) : s.Before s := ⟨Nat.le_refl _, Nat.le_refl _⟩

theorem trans (h : s.Before t) (k : t.Before u) : s.Before u :=
  ⟨Nat.le_trans h.frames k.frames, Nat.le_trans h.objects k.objects⟩

theorem child (s : Store) (env : Env) : s.Before (s.child env).2 :=
  ⟨by simp [Store.child], Nat.le_refl _⟩

theorem put (s : Store) (f : FrameId) (x : String) (v : Value) : s.Before (s.put f x v) :=
  ⟨by simp [Store.put], Nat.le_refl _⟩

theorem allocate (s : Store) : s.Before s.allocate.2 := ⟨Nat.le_refl _, by simp [Store.allocate]⟩

theorem setField (s : Store) (o : ObjectId) (x : String) (v : Value) : s.Before (s.setField o x v) :=
  ⟨Nat.le_refl _, by simp [Store.setField]⟩

theorem modifySlots (s : Store) (o : ObjectId) (f : Array Value → Array Value) :
    s.Before (s.modifySlots o f) :=
  ⟨Nat.le_refl _, by simp [Store.modifySlots]⟩

theorem refill (s : Store) (o : ObjectId) (xs : Array Value) : s.Before (s.refill o xs) :=
  (modifySlots s o _).trans (setField _ o _ _)

end Before

end Store

/-! ### Well-formed values -/

/-- An environment that ends at the globals, and whose frames are there. -/
structure Grounded (s : Store) (env : Env) : Prop where
  outermost : env.getLast? = some globalFrame
  inside : ∀ f ∈ env, f < s.frames.size

def Method.Upright (s : Store) : Method → Prop
  | .declared closure => Grounded s closure.env
  | .native _ => True

def Class.Upright (s : Store) (c : Class) : Prop :=
  ∀ k ∈ c.upward, ∀ entry ∈ k.methods, entry.2.Upright s

def Callable.Upright (s : Store) : Callable → Prop
  | .function _ closure => Grounded s closure.env
  | .native _ op receiver => op.ofLists → ∃ o, receiver = some o ∧ o < s.objects.size
  | .class c => c.Upright s

def Value.Upright (s : Store) : Value → Prop
  | .callable c => c.Upright s
  | .instance c o => c.Upright s ∧ o < s.objects.size
  | _ => True

/-- Whatever is kept anywhere is well formed. -/
structure Store.Upright (s : Store) : Prop where
  bindings : ∀ {f x v}, s.getHere? f x = some v → v.Upright s
  fields : ∀ {o x v}, s.field? o x = some v → v.Upright s
  elements : ∀ {o v}, v ∈ s.slots o → v.Upright s

structure Machine.Upright (m : Machine) : Prop where
  store : m.store.Upright
  env : Grounded m.store m.env

section Mono

variable {s t : Store} (later : s.Before t)

include later

theorem Grounded.mono {env : Env} (h : Grounded s env) : Grounded t env :=
  ⟨h.outermost, fun f mem => Nat.lt_of_lt_of_le (h.inside f mem) later.frames⟩

theorem Method.Upright.mono {method : Method} (h : method.Upright s) : method.Upright t := by
  cases method with
  | declared closure => exact Grounded.mono later h
  | native op => trivial

theorem Class.Upright.mono {c : Class} (h : c.Upright s) : c.Upright t :=
  fun k mem entry own => Method.Upright.mono later (h k mem entry own)

theorem Callable.Upright.mono {c : Callable} (h : c.Upright s) : c.Upright t := by
  cases c with
  | function id closure => exact Grounded.mono later h
  | native id op receiver =>
    intro list
    obtain ⟨o, same, inside⟩ := h list
    exact ⟨o, same, Nat.lt_of_lt_of_le inside later.objects⟩
  | «class» c => exact Class.Upright.mono later h

theorem Value.Upright.mono {v : Value} (h : v.Upright s) : v.Upright t := by
  cases v with
  | callable c => exact Callable.Upright.mono later h
  | «instance» c o => exact ⟨Class.Upright.mono later h.1, Nat.lt_of_lt_of_le h.2 later.objects⟩
  | nil | bool | number | string => trivial

end Mono

theorem Value.Plain.upright {v : Value} (h : v.Plain) (s : Store) : v.Upright s := by
  cases h <;> trivial

/-! ### Classes -/

theorem Class.Upright.found {s : Store} {c : Class} (h : c.Upright s) {name : String} {method : Method}
    (found : c.findMethod? name = some method) : method.Upright s := by
  obtain ⟨k, nearest⟩ := (Class.findMethod?_spec name c).1 method found
  obtain ⟨before, after, chain, -⟩ := nearest.split
  obtain ⟨above, below, table, -⟩ := List.lookup_eq_some_iff.1 nearest.own
  refine h k ?_ (name, method) ?_
  · rw [chain]
    exact List.mem_append_right _ List.mem_cons_self
  · rw [table]
    exact List.mem_append_right _ List.mem_cons_self

theorem upright_class {s : Store} {parent : Option Class} {env : Env} (grounded : Grounded s env)
    (above : ∀ p, parent = some p → p.Upright s) (id : Identity) (name : String)
    (methods : List FunctionDecl) : Class.Upright s ⟨id, name, parent, methodTable env methods⟩ := by
  have own : ∀ entry ∈ methodTable env methods, entry.2.Upright s := by
    intro entry mem
    obtain ⟨d, -, rfl⟩ := List.mem_map.1 (List.mem_reverse.1 mem)
    exact grounded
  cases parent with
  | none => exact List.forall_mem_singleton.2 own
  | some p => exact List.forall_mem_cons.2 ⟨own, above p rfl⟩

/-! ### Changes to the store -/

namespace Store.Upright

variable {s t : Store} (h : s.Upright)

include h

/-- Whatever is new in a store is well formed. -/
theorem change (later : s.Before t)
    (bindings : ∀ f x v, t.getHere? f x = some v → s.getHere? f x = some v ∨ v.Upright t)
    (fields : ∀ o x v, t.field? o x = some v → s.field? o x = some v ∨ v.Upright t)
    (elements : ∀ o, ∀ v ∈ t.slots o, v ∈ s.slots o ∨ v.Upright t) : t.Upright where
  bindings found := (bindings _ _ _ found).elim (fun old => (h.bindings old).mono later) id
  fields found := (fields _ _ _ found).elim (fun old => (h.fields old).mono later) id
  elements mem := (elements _ _ mem).elim (fun old => (h.elements old).mono later) id

theorem child (env : Env) : (s.child env).2.Upright :=
  h.change (.child s env)
    (fun f x _ found => .inl ((s.getHere?_child env f x).symm.trans found))
    (fun _ _ _ found => .inl found) fun _ _ mem => .inl mem

theorem put {v : Value} (good : v.Upright s) (frame : FrameId) (name : String) :
    (s.put frame name v).Upright := by
  refine h.change (.put s frame name v) (fun f x w found => ?_) (fun _ _ _ found => .inl found)
    fun _ _ mem => .inl mem
  by_cases inside : frame < s.frames.size
  · rw [s.getHere?_put frame f name x v inside] at found
    split at found
    · cases found
      exact .inr (good.mono (.put s frame name v))
    · exact .inl found
  · rw [getHere?_put_outside s frame name v inside] at found
    exact .inl found

theorem allocate : s.allocate.2.Upright :=
  h.change (.allocate s) (fun _ _ _ found => .inl found)
    (fun o x _ found => .inl ((field?_allocate s o x).symm.trans found))
    fun o _ mem => .inl (slots_allocate s o ▸ mem)

theorem setField {v : Value} (good : v.Upright s) (o : ObjectId) (name : String) :
    (s.setField o name v).Upright := by
  refine h.change (.setField s o name v) (fun _ _ _ found => .inl found) (fun p x w found => ?_)
    fun p w mem => .inl (slots_setField s p o name v ▸ mem)
  rw [field?_setField] at found
  split at found
  · cases found
    exact .inr (good.mono (.setField s o name v))
  · exact .inl found

theorem modifySlots {f : Array Value → Array Value} (o : ObjectId)
    (good : ∀ v ∈ f (s.slots o), v.Upright s) : (s.modifySlots o f).Upright := by
  refine h.change (.modifySlots s o f) (fun _ _ _ found => .inl found)
    (fun p x w found => .inl ((field?_modifySlots s p o f x).symm.trans found)) fun p w mem => ?_
  rw [slots_modifySlots] at mem
  split at mem
  · next here =>
    obtain ⟨rfl, -⟩ := here
    exact .inr ((good w mem).mono (.modifySlots s p f))
  · exact .inl mem

theorem refill {xs : Array Value} (o : ObjectId) (good : ∀ v ∈ xs, v.Upright s) :
    (s.refill o xs).Upright :=
  (h.modifySlots o good).setField (v := .number _) trivial o "length"

end Store.Upright

end Lox
