import Lox.Evaluation
import Lox.Proofs.Grammar.Reading
import Lox.Proofs.Run.Frames

/-!
# Parameters

The body of a function runs in a new scope that holds the parameters (`callFunction_entered`). With as
many arguments as there are parameters, each parameter is bound and each argument is taken
(`Machine.enters`).
-/

namespace Lox

open Grammar (bind_of_ok)

/-! ### Many bindings -/

/-- Binds names in one frame, one after the other. -/
def Store.putAll (s : Store) (frame : FrameId) (bindings : List (String × Value)) : Store :=
  bindings.foldl (fun s (name, v) => s.put frame name v) s

section PutAll

variable {frame : FrameId} {x : String}

theorem size_putAll (s : Store) (frame : FrameId) (bindings : List (String × Value)) :
    (s.putAll frame bindings).frames.size = s.frames.size := by
  unfold Store.putAll
  induction bindings generalizing s with
  | nil => rfl
  | cons b bs ih =>
    rw [List.foldl_cons, ih, size_put]

/-- Names that are not among the bindings stay as they are, and so does everything elsewhere. -/
theorem getHere?_putAll_other (s : Store) (inside : frame < s.frames.size)
    {bindings : List (String × Value)} {f : FrameId}
    (other : f ≠ frame ∨ x ∉ bindings.map Prod.fst) :
    (s.putAll frame bindings).getHere? f x = s.getHere? f x := by
  unfold Store.putAll
  induction bindings generalizing s with
  | nil => rfl
  | cons b bs ih =>
    have apart : ¬ (f = frame ∧ x = b.1) := by
      rintro ⟨rfl, rfl⟩
      simp at other
    have later : f ≠ frame ∨ x ∉ bs.map Prod.fst :=
      other.imp_right fun absent mem => absent (List.mem_cons_of_mem _ mem)
    rw [List.foldl_cons, ih (s.put frame b.1 b.2) (by simpa using inside) later,
      s.getHere?_put frame f b.1 x b.2 inside, if_neg apart]

/-- A name has the last of the values that it is bound to. -/
theorem getHere?_putAll (s : Store) (inside : frame < s.frames.size)
    {bindings : List (String × Value)} {i : Nat} {v : Value} (binding : bindings[i]? = some (x, v))
    (last : x ∉ (bindings.drop (i + 1)).map Prod.fst) :
    (s.putAll frame bindings).getHere? frame x = some v := by
  induction bindings generalizing s i with
  | nil => cases binding
  | cons b bs ih =>
    have still : frame < (s.put frame b.1 b.2).frames.size := by simpa using inside
    cases i with
    | zero =>
      cases binding
      refine (getHere?_putAll_other (s.put frame x v) still (.inr last)).trans ?_
      rw [s.getHere?_put frame frame x x v inside, if_pos ⟨rfl, rfl⟩]
    | succ i => exact ih (s.put frame b.1 b.2) still binding last

theorem isSome_putAll (s : Store) (inside : frame < s.frames.size)
    {bindings : List (String × Value)} (among : x ∈ bindings.map Prod.fst) :
    ((s.putAll frame bindings).getHere? frame x).isSome := by
  induction bindings generalizing s with
  | nil => cases among
  | cons b bs ih =>
    have still : frame < (s.put frame b.1 b.2).frames.size := by simpa using inside
    by_cases again : x ∈ bs.map Prod.fst
    · exact ih (s.put frame b.1 b.2) still again
    · obtain rfl := (List.mem_cons.1 among).resolve_right again
      have bound : ((b :: bs)[0]? : Option (String × Value)) = some (b.1, b.2) := rfl
      rw [getHere?_putAll s inside bound again]
      rfl

end PutAll

/-! ### Entering a function -/

theorem bindParameters_run (frame : FrameId) (outer : Env) (params : List Token)
    (arguments : List Value) (m : Machine) :
    bindParameters (frame :: outer) params arguments m =
      .ok () (m.mapStore (·.putAll frame ((params.map (·.lexeme)).zip arguments))) := by
  induction params generalizing arguments m with
  | nil => rfl
  | cons p ps ih =>
    cases arguments with
    | nil => rfl
    | cons v vs => exact ih vs (m.mapStore (·.define (frame :: outer) p.lexeme v))

namespace Machine

/-- The machine when the body of a function is entered, its scope aside. -/
def entered (m : Machine) (closure : Closure) (arguments : List Value) : Machine :=
  m.mapStore fun s => (s.child closure.env).2.putAll s.frames.size
    ((closure.declaration.params.map (·.lexeme)).zip arguments)

/-- A new scope of a machine binds the parameters of a function to all of the arguments. -/
structure Enters (closure : Closure) (arguments : List Value) (m n : Machine) : Prop where
  scope : n.store.frames.size = m.store.frames.size + 1
  params : ∀ p ∈ closure.declaration.params,
    (n.store.getHere? m.store.frames.size p.lexeme).isSome
  /-- Each argument belongs to a parameter. If that is the last one of its name, it is bound to the
  argument. -/
  arguments : ∀ i v, arguments[i]? = some v → ∃ p, closure.declaration.params[i]? = some p ∧
    (p.lexeme ∉ (closure.declaration.params.drop (i + 1)).map (·.lexeme) →
      n.store.getHere? m.store.frames.size p.lexeme = some v)
  others : ∀ f x, f ≠ m.store.frames.size → n.store.getHere? f x = m.store.getHere? f x

theorem enters (m : Machine) {closure : Closure} {arguments : List Value}
    (fits : arguments.length = closure.declaration.arity) :
    m.Enters closure arguments (m.entered closure arguments) := by
  have inside : m.store.frames.size < (m.store.child closure.env).2.frames.size := by simp
  have names : (((closure.declaration.params.map (·.lexeme)).zip arguments).map Prod.fst) =
      closure.declaration.params.map (·.lexeme) :=
    List.map_fst_zip (by rw [List.length_map, fits]; exact Nat.le_refl _)
  refine ⟨?_, fun p mem => ?_, fun i v argument => ?_, fun f x other => ?_⟩
  · exact (size_putAll _ _ _).trans (size_child _ _)
  · refine isSome_putAll _ inside ?_
    rw [names]
    exact List.mem_map_of_mem mem
  · have within : i < closure.declaration.params.length := by
      have := (List.getElem?_eq_some_iff.1 argument).1
      rwa [fits] at this
    refine ⟨_, List.getElem?_eq_getElem within, fun last => getHere?_putAll _ inside (i := i) ?_ ?_⟩
    · rw [List.getElem?_zip_eq_some, List.getElem?_map, List.getElem?_eq_getElem within]
      exact ⟨rfl, argument⟩
    · rwa [List.map_drop, names, ← List.map_drop]
  · exact (getHere?_putAll_other _ inside (.inl other)).trans (m.store.getHere?_child _ f x)

end Machine

theorem callFunction_entered (run : List Stmt → Eval Flow) (closure : Closure)
    (arguments : List Value) (m : Machine) :
    callFunction run closure arguments m =
      (within (m.store.frames.size :: closure.env) (run closure.declaration.body) >>=
        result closure) (m.entered closure arguments) := by
  have bound := bindParameters_run m.store.frames.size closure.env closure.declaration.params
    arguments (m.mapStore fun s => (s.child closure.env).2)
  have parts : callFunction run closure arguments m =
      (bindParameters (m.store.frames.size :: closure.env) closure.declaration.params arguments >>=
        fun _ => within (m.store.frames.size :: closure.env) (run closure.declaration.body) >>=
          result closure) (m.mapStore fun s => (s.child closure.env).2) := rfl
  exact parts.trans (bind_of_ok bound)

end Lox
