import Lox.Machine

/-!
# Frames

What the frames of a store bind after a scope was opened or a name was bound, and what the node of a
name comes to in them.
-/

namespace Lox

@[simp] theorem size_put (s : Store) (frame : FrameId) (name : String) (v : Value) :
    (s.put frame name v).frames.size = s.frames.size := by
  simp [Store.put]

@[simp] theorem size_child (s : Store) (env : Env) :
    (s.child env).2.frames.size = s.frames.size + 1 := by
  simp [Store.child]

theorem getHere?_frames {s t : Store} (same : t.frames = s.frames) (f : FrameId) (x : String) :
    t.getHere? f x = s.getHere? f x := by
  unfold Store.getHere?
  rw [same]

theorem getHere?_put_outside (s : Store) (frame : FrameId) (name : String) (v : Value)
    (h : ¬ frame < s.frames.size) (f : FrameId) (x : String) :
    (s.put frame name v).getHere? f x = s.getHere? f x := by
  unfold Store.put Store.getHere?
  simp only [Array.getElem?_modify]
  by_cases same : frame = f
  · subst same
    rw [Array.getElem?_eq_none (Nat.le_of_not_lt h)]
    simp
  · rw [if_neg same]

theorem getHere?_put_other (s : Store) (frame : FrameId) {name x : String} (other : name ≠ x)
    (v : Value) (f : FrameId) : (s.put frame name v).getHere? f x = s.getHere? f x := by
  by_cases inside : frame < s.frames.size
  · rw [s.getHere?_put frame f name x v inside, if_neg fun both => other both.2.symm]
  · exact getHere?_put_outside s frame name v inside f x

theorem lt_size_of_getHere? {s : Store} {f : FrameId} {x : String} {v : Value}
    (found : s.getHere? f x = some v) : f < s.frames.size := by
  refine Nat.lt_of_not_le fun outside => ?_
  unfold Store.getHere? at found
  rw [Array.getElem?_eq_none outside] at found
  cases found

section Child

variable (s : Store) (env : Env) (name : String) (v : Value)

theorem size_child_put :
    ((s.child env).2.put s.frames.size name v).frames.size = s.frames.size + 1 := by
  simp

theorem getHere?_child_put (f : FrameId) (x : String) :
    ((s.child env).2.put s.frames.size name v).getHere? f x =
      if f = s.frames.size ∧ x = name then some v else s.getHere? f x := by
  have new : s.frames.size < (s.child env).2.frames.size := by simp
  rw [(s.child env).2.getHere?_put _ _ _ _ v new, s.getHere?_child]

end Child

/-- The value of a name whose nearest binding was changed. -/
theorem get?_put_owner {s : Store} {env : Env} {x : String} {f : FrameId}
    (owner : s.owner? env x = some f) (v : Value) : (s.put f x v).get? env x = some v := by
  have binds : s.binds x f = true := List.find?_some owner
  obtain ⟨old, binding⟩ := Option.isSome_iff_exists.1 binds
  have here : ∀ g, (s.put f x v).getHere? g x = if g = f then some v else s.getHere? g x := by
    intro g
    rw [s.getHere?_put f g x x v (lt_size_of_getHere? binding)]
    simp
  unfold Store.owner? at owner
  unfold Store.get?
  induction env with
  | nil => cases owner
  | cons g env ih =>
    rw [List.findSome?_cons, here]
    rw [List.find?_cons] at owner
    by_cases mine : g = f
    · rw [if_pos mine]
    · cases binds : s.binds x g with
      | true =>
        rw [binds] at owner
        exact absurd (Option.some.inj owner) mine
      | false =>
        rw [binds] at owner
        rw [if_neg mine, Option.not_isSome_iff_eq_none.1 (Bool.eq_false_iff.1 binds)]
        exact ih owner

/-! ### Nodes of names -/

theorem lookUp_run (id : NodeId) (name : Token) (m : Machine) :
    lookUp id name m =
      match m.valueAt? id name.lexeme with
      | some v => .ok v m
      | none => .error (.error (.program name.line (.undefinedVariable name.lexeme))) m := by
  have run : lookUp id name m =
      orFail name.line (.undefinedVariable name.lexeme) (m.valueAt? id name.lexeme) m := rfl
  rw [run]
  cases m.valueAt? id name.lexeme <;> rfl

theorem assignName_run (id : NodeId) (name : Token) (v : Value) (m : Machine) :
    assignName id name v m =
      match m.ownerOf? id name.lexeme with
      | some frame => .ok () (m.mapStore (·.put frame name.lexeme v))
      | none => .error (.error (.program name.line (.undefinedVariable name.lexeme))) m := by
  have run : assignName id name v m =
      (match m.ownerOf? id name.lexeme with
        | some frame =>
          (modify fun m : Machine => m.mapStore (·.put frame name.lexeme v) : Eval Unit)
        | none => fail name.line (.undefinedVariable name.lexeme)) m := rfl
  rw [run]
  cases m.ownerOf? id name.lexeme <;> rfl

end Lox
