import Lox.Proofs.Run.Frames

/-!
# Objects

What the fields and the elements of an object are after a change to the store.
-/

namespace Lox

section Fields

variable (s : Store) (o : ObjectId)

theorem field?_allocate (x : String) : s.allocate.2.field? o x = s.field? o x := by
  unfold Store.allocate Store.field?
  simp only [Array.getElem?_push]
  split
  · next new =>
    subst new
    simp
  · rfl

theorem slots_allocate : s.allocate.2.slots o = s.slots o := by
  unfold Store.allocate Store.slots
  simp only [Array.getElem?_push]
  split
  · next new =>
    subst new
    simp
  · rfl

theorem field?_setField (p : ObjectId) (x y : String) (v : Value) :
    (s.setField p y v).field? o x =
      if o = p ∧ x = y ∧ p < s.objects.size then some v else s.field? o x := by
  unfold Store.setField Store.field?
  simp only [Array.getElem?_modify]
  by_cases here : p = o
  · subst here
    by_cases inside : p < s.objects.size
    · rw [Array.getElem?_eq_getElem inside]
      simp [Std.TreeMap.getElem?_insert, Std.LawfulEqCmp.compare_eq_iff_eq, @eq_comm _ x y, inside]
    · rw [Array.getElem?_eq_none (Nat.le_of_not_lt inside)]
      simp [inside]
  · rw [if_neg here, if_neg fun all => here all.1.symm]

theorem slots_setField (p : ObjectId) (y : String) (v : Value) :
    (s.setField p y v).slots o = s.slots o := by
  unfold Store.setField Store.slots
  simp only [Array.getElem?_modify]
  by_cases here : p = o
  · rw [if_pos here]
    cases s.objects[o]? <;> rfl
  · rw [if_neg here]

theorem field?_modifySlots (p : ObjectId) (f : Array Value → Array Value) (x : String) :
    (s.modifySlots p f).field? o x = s.field? o x := by
  unfold Store.modifySlots Store.field?
  simp only [Array.getElem?_modify]
  by_cases here : p = o
  · rw [if_pos here]
    cases s.objects[o]? <;> rfl
  · rw [if_neg here]

theorem slots_modifySlots (p : ObjectId) (f : Array Value → Array Value) :
    (s.modifySlots p f).slots o =
      if o = p ∧ p < s.objects.size then f (s.slots o) else s.slots o := by
  unfold Store.modifySlots Store.slots
  simp only [Array.getElem?_modify]
  by_cases here : p = o
  · subst here
    by_cases inside : p < s.objects.size
    · rw [Array.getElem?_eq_getElem inside]
      simp [inside]
    · rw [Array.getElem?_eq_none (Nat.le_of_not_lt inside)]
      simp [inside]
  · rw [if_neg here, if_neg fun all => here all.1.symm]

end Fields

/-! ### Lists -/

namespace Store

/-- Puts other elements into an object, and their number into its field `length`. -/
def refill (s : Store) (o : ObjectId) (xs : Array Value) : Store :=
  (s.modifySlots o fun _ => xs).setField o "length" (.number xs.size.toFloat)

variable (s : Store) (o p : ObjectId) (xs : Array Value)

@[simp] theorem size_refill : (s.refill o xs).objects.size = s.objects.size := by
  simp [refill, setField, modifySlots]

theorem slots_refill :
    (s.refill o xs).slots p = if p = o ∧ o < s.objects.size then xs else s.slots p := by
  unfold refill
  rw [slots_setField, slots_modifySlots]

theorem field?_refill (x : String) : (s.refill o xs).field? p x =
    if p = o ∧ x = "length" ∧ o < s.objects.size then some (.number xs.size.toFloat)
    else s.field? p x := by
  unfold refill
  rw [field?_setField, field?_modifySlots]
  simp [modifySlots]

/-- Elements are changed first and counted afterwards. -/
theorem setField_modifySlots (f : Array Value → Array Value) :
    (s.modifySlots o f).setField o "length" (.number ((s.modifySlots o f).slots o).size.toFloat) =
      s.refill o (f (s.slots o)) := by
  unfold refill setField modifySlots slots
  congr 1
  refine Array.ext_getElem? fun i => ?_
  simp only [Array.getElem?_modify]
  by_cases here : o = i
  · subst here
    cases s.objects[o]? <;> simp
  · simp [here]

end Store

end Lox
