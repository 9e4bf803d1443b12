import Lox.Proofs.Run.Sequence
import Lox.Proofs.Run.Upright

/-!
# Histories of lists

Whatever runs, the elements of a list change by calls of its methods only, one after the other
(`list_lives`), and so they are what the answers to those calls make of a sequence (`Lived.plays`).
-/

namespace Lox

open EStateM (Result)

/-- A call of a list with its answer. -/
abbrev Entry := ListCall × Except NativeFault Value

/-- From one machine to a later one: the calls of a list, and in between what leaves its elements. -/
inductive Lived (o : ObjectId) : Machine → List Entry → Machine → Prop
  | refl (m : Machine) : Lived o m [] m
  | call {call : ListCall} {answer : Except NativeFault Value} {m n k : Machine} {entries : List Entry}
      (ran : call.routine.run (some o) call.arguments m = Native.respond answer n)
      (rest : Lived o n entries k) : Lived o m ((call, answer) :: entries) k
  | other {m n k : Machine} {entries : List Entry} (slots : n.store.slots o = m.store.slots o)
      (size : m.store.objects.size ≤ n.store.objects.size) (rest : Lived o n entries k) :
      Lived o m entries k

/-- Calls and answers that lead from some elements to others, whatever the field `length` holds
before each call. -/
inductive Plays : List Value → List Entry → List Value → Prop
  | nil (xs : List Value) : Plays xs [] xs
  | cons {xs ys zs : List Value} {before after : Option Value} {call : ListCall}
      {answer : Except NativeFault Value} {entries : List Entry}
      (step : Answers ⟨xs, before⟩ call answer ⟨ys, after⟩) (rest : Plays ys entries zs) :
      Plays xs ((call, answer) :: entries) zs

namespace Lived

variable {o : ObjectId} {m n k : Machine} {entries more : List Entry}

theorem trans (h : Lived o m entries n) (h' : Lived o n more k) : Lived o m (entries ++ more) k := by
  induction h with
  | refl m => exact h'
  | call ran rest ih => exact .call ran (ih h')
  | other slots size rest ih => exact .other slots size (ih h')

/-- The elements are played from those at the start. -/
theorem plays (h : Lived o m entries n) (inside : o < m.store.objects.size) :
    Plays (m.store.slots o).toList entries (n.store.slots o).toList := by
  induction h with
  | refl m => exact .nil _
  | @call call answer m n k entries ran rest ih =>
    obtain ⟨answer', n', served⟩ := Native.served inside call
    obtain ⟨rfl, rfl⟩ := Native.respond_inj (ran.symm.trans served.ran)
    have confined := Native.run_confined o call m
    rw [ran, Native.final_respond] at confined
    exact .cons served.answers (ih (confined.size ▸ inside))
  | other slots size rest ih =>
    rw [← slots]
    exact ih (Nat.lt_of_lt_of_le inside size)

end Lived

namespace Native

/-- A routine of lists with a receiver is some call of a list. -/
theorem run_call {op : Native} (lists : op.ofLists = true) (arguments : List Value) :
    ∃ call : ListCall, ∀ o m,
      op.run (some o) arguments m = call.routine.run (some o) call.arguments m := by
  cases op with
  | clock | read | readNum => cases lists
  | listInit => exact ⟨.init (arguments.getD 0 .nil), fun _ _ => rfl⟩
  | listGet => exact ⟨.get (arguments.getD 0 .nil), fun _ _ => rfl⟩
  | listSet => exact ⟨.set (arguments.getD 0 .nil) (arguments.getD 1 .nil), fun _ _ => rfl⟩
  | listAppend => exact ⟨.append (arguments.getD 0 .nil), fun _ _ => rfl⟩
  | listRemove => exact ⟨.remove (arguments.getD 0 .nil), fun _ _ => rfl⟩
  | listPop => exact ⟨.pop (arguments.getD 0 .nil), fun _ _ => rfl⟩

theorem Elsewhere.store_final {m : Machine} {r : Result NativeFault Machine Value}
    (h : Elsewhere m r) : (final r).store = m.store := by
  cases h with
  | ok store | error store => exact store

/-- Without a receiver a routine of lists does nothing. -/
theorem run_unbound {op : Native} (lists : op.ofLists = true) (arguments : List Value) (m : Machine) :
    final (op.run none arguments m) = m := by
  cases op with
  | clock | read | readNum => cases lists
  | listInit =>
    show final (startList none (arguments.getD 0 .nil) m) = m
    unfold startList
    cases startSize (arguments.getD 0 .nil) <;> rfl
  | listGet | listSet | listAppend | listRemove | listPop => rfl

end Native

/-! ### Whatever runs -/

/-- The list has come from the one machine to the other. -/
def Outlives (o : ObjectId) (m n : Machine) : Prop := ∃ entries, Lived o m entries n

namespace Outlives

variable {o : ObjectId} {m n k : Machine}

theorem refl (m : Machine) : Outlives o m m := ⟨[], .refl m⟩

theorem trans (h : Outlives o m n) (h' : Outlives o n k) : Outlives o m k := by
  obtain ⟨entries, h⟩ := h
  obtain ⟨more, h'⟩ := h'
  exact ⟨entries ++ more, h.trans h'⟩

theorem other (slots : n.store.slots o = m.store.slots o)
    (size : m.store.objects.size ≤ n.store.objects.size) : Outlives o m n :=
  ⟨[], .other slots size (.refl n)⟩

theorem run (op : Native) (receiver : Option ObjectId) (arguments : List Value) (m : Machine) :
    Outlives o m (final (op.run receiver arguments m)) := by
  cases lists : op.ofLists with
  | false =>
    have same := (Native.run_elsewhere lists receiver arguments m).store_final
    exact other (congrArg (·.slots o) same) (Nat.le_of_eq (congrArg (·.objects.size) same.symm))
  | true =>
  cases receiver with
  | none =>
    rw [Native.run_unbound lists arguments m]
    exact .refl m
  | some p =>
    obtain ⟨call, same⟩ := Native.run_call lists arguments
    rw [same p m]
    by_cases mine : p = o
    · subst mine
      obtain ⟨answer, n, ran⟩ := Native.exists_respond (call.routine.run (some p) call.arguments m)
      rw [ran, Native.final_respond]
      exact ⟨[(call, answer)], .call ran (.refl n)⟩
    · have confined := Native.run_confined p call m
      exact other (confined.slots o (Ne.symm mine)) (Nat.le_of_eq confined.size.symm)

end Outlives

instance (o : ObjectId) : Stable (Outlives o) where
  refl := .refl
  trans := .trans
  within {m _ env} inner := Outlives.trans (n := { m with env }) (.other rfl (Nat.le_refl _))
    (inner.trans (.other rfl (Nat.le_refl _)))
  identity _ := .other rfl (Nat.le_refl _)
  print _ _ := .other rfl (Nat.le_refl _)
  child _ _ := .other rfl (Nat.le_refl _)
  put _ _ _ _ := .other rfl (Nat.le_refl _)
  allocate m := .other (slots_allocate m.store o) (Store.Before.allocate m.store).objects
  setField m p name v := .other (slots_setField m.store o p name v)
    (Store.Before.setField m.store p name v).objects
  native := Outlives.run

end Lox
