import Lox.Proofs.Number.Whole
import Lox.Proofs.Run.Routines
import Lox.Proofs.Run.Stable

/-!
# Lists as sequences

What the methods of a list do to its elements and to its field `length`, as operations on a sequence
(`Answers`), and that the supplied routines do just that and touch nothing else (`run_answers`).
-/

namespace Lox

open EStateM (Result)

/-! ### Sequences -/

/-- What is asked of a list. -/
inductive ListCall
  | init (count : Value)
  | get (position : Value)
  | set (position v : Value)
  | append (v : Value)
  | remove (v : Value)
  | pop (position : Value)

namespace ListCall

/-- The name of the method. -/
def name : ListCall → String
  | init _ => initializerName
  | get _ => "get"
  | set _ _ => "set"
  | append _ => "append"
  | remove _ => "remove"
  | pop _ => "pop"

def routine : ListCall → Native
  | init _ => .listInit
  | get _ => .listGet
  | set _ _ => .listSet
  | append _ => .listAppend
  | remove _ => .listRemove
  | pop _ => .listPop

def arguments : ListCall → List Value
  | init count => [count]
  | get position => [position]
  | set position v => [position, v]
  | append v => [v]
  | remove v => [v]
  | pop position => [position]

/-- Where in the list something is asked for. -/
def position? : ListCall → Option Value
  | get position => some position
  | set position _ => some position
  | pop position => some position
  | _ => none

end ListCall

/-- A list as a program sees it: its elements, and what its field `length` holds. -/
structure Sequence where
  elements : List Value
  length : Option Value

/-- Elements with their number. -/
def Sequence.counted (elements : List Value) : Sequence :=
  ⟨elements, some (.number elements.length.toFloat)⟩

/-- The value is a number and equal to the natural number. -/
def Value.Denotes (v : Value) (n : Nat) : Prop := ∃ x, v = .number x ∧ Number.value? x = some (n : ℚ)

/-- What comes of a value that is to be a natural number in some range. -/
inductive Ranged (v : Value) (range : Nat → Prop) (beyond other : NativeFault) :
    Except NativeFault Nat → Prop
  | within {n : Nat} (denotes : v.Denotes n) (h : range n) : Ranged v range beyond other (.ok n)
  | beyond {n : Nat} (denotes : v.Denotes n) (h : ¬ range n) :
      Ranged v range beyond other (.error beyond)
  | other (h : ∀ n, ¬ v.Denotes n) : Ranged v range beyond other (.error other)

/-- The element, among `size` of them, that a value points at. -/
def Points (v : Value) (size : Nat) : Except NativeFault Nat → Prop :=
  Ranged v (· < size) .indexOutOfRange .indexNotNatural

/-- The number of elements that a list can start with. -/
def Counts (v : Value) : Except NativeFault Nat → Prop :=
  Ranged v (· ≤ 2 ^ 24) .sizeTooLarge .sizeNotNatural

/-- The answer to a call, and the sequence afterwards. -/
inductive Answers (s : Sequence) : ListCall → Except NativeFault Value → Sequence → Prop
  | init {count : Value} {n : Nat} (counts : Counts count (.ok n)) :
      Answers s (.init count) (.ok .nil) (.counted (List.replicate n .nil))
  | uncounted {count : Value} {cause : NativeFault} (counts : Counts count (.error cause)) :
      Answers s (.init count) (.error cause) s
  | get {position v : Value} {before after : List Value}
      (points : Points position s.elements.length (.ok before.length))
      (elements : s.elements = before ++ v :: after) : Answers s (.get position) (.ok v) s
  | set {position v w : Value} {before after : List Value}
      (points : Points position s.elements.length (.ok before.length))
      (elements : s.elements = before ++ v :: after) :
      Answers s (.set position w) (.ok w) { s with elements := before ++ w :: after }
  | pop {position v : Value} {before after : List Value}
      (points : Points position s.elements.length (.ok before.length))
      (elements : s.elements = before ++ v :: after) :
      Answers s (.pop position) (.ok v) (.counted (before ++ after))
  | pointless {call : ListCall} {position : Value} {cause : NativeFault}
      (asked : call.position? = some position)
      (points : Points position s.elements.length (.error cause)) : Answers s call (.error cause) s
  | append (v : Value) : Answers s (.append v) (.ok .nil) (.counted (s.elements ++ [v]))
  /-- The first element that is equal to the value. -/
  | remove {v w : Value} {before after : List Value} (elements : s.elements = before ++ w :: after)
      (equal : w.equals v = true) (first : ∀ u ∈ before, u.equals v = false) :
      Answers s (.remove v) (.ok (.bool true)) (.counted (before ++ after))
  | absent {v : Value} (unequal : ∀ u ∈ s.elements, u.equals v = false) :
      Answers s (.remove v) (.ok (.bool false)) s

/-! ### One answer -/

theorem Value.Denotes.unique {v : Value} {n k : Nat} (h : v.Denotes n) (h' : v.Denotes k) : n = k := by
  obtain ⟨x, rfl, value⟩ := h
  obtain ⟨y, same, value'⟩ := h'
  cases same
  exact_mod_cast Option.some.inj (value.symm.trans value')

/-- Up to the width of a mantissa the number that counts elements is equal to theirs. -/
theorem denotes_toFloat {n : Nat} (fits : n < 2 ^ 53) : (Value.number n.toFloat).Denotes n :=
  ⟨_, rfl, Number.value?_toFloat fits⟩

theorem Ranged.unique {v : Value} {range : Nat → Prop} {beyond other : NativeFault}
    {r r' : Except NativeFault Nat} (h : Ranged v range beyond other r)
    (h' : Ranged v range beyond other r') : r = r' := by
  cases h with
  | within denotes inside =>
    cases h' with
    | within denotes' _ => rw [denotes.unique denotes']
    | beyond denotes' outside => exact absurd (denotes.unique denotes' ▸ inside) outside
    | other none => exact absurd denotes (none _)
  | beyond denotes outside =>
    cases h' with
    | within denotes' inside => exact absurd (denotes'.unique denotes ▸ inside) outside
    | beyond _ _ => rfl
    | other none => exact absurd denotes (none _)
  | other none =>
    cases h' with
    | within denotes _ => exact absurd denotes (none _)
    | beyond denotes _ => exact absurd denotes (none _)
    | other _ => rfl

/-- Sequences that are split at the same place are split alike. -/
theorem split_unique {xs before after before' after' : List Value} {v v' : Value}
    (h : xs = before ++ v :: after) (h' : xs = before' ++ v' :: after')
    (same : before.length = before'.length) : before = before' ∧ v = v' ∧ after = after' := by
  obtain ⟨front, rest⟩ := List.append_inj (h.symm.trans h') same
  exact ⟨front, List.cons.inj rest⟩

/-- The first element that is equal to a value is at one place only. -/
theorem first_unique {p : Value → Bool} {xs before after before' after' : List Value} {v v' : Value}
    (h : xs = before ++ v :: after) (h' : xs = before' ++ v' :: after')
    (first : ∀ u ∈ before, p u = false) (first' : ∀ u ∈ before', p u = false)
    (here : p v = true) (here' : p v' = true) : before = before' ∧ v = v' ∧ after = after' := by
  have front : ∀ {front back : List Value} {w : Value}, xs = front ++ w :: back →
      (∀ u ∈ front, p u = false) → p w = true → xs.takeWhile (!p ·) = front := by
    rintro front back w rfl none here
    rw [List.takeWhile_append_of_pos (by simpa using none),
      List.takeWhile_cons_of_neg (by simpa using here), List.append_nil]
  exact split_unique h h' (by rw [← front h first here, ← front h' first' here'])

/-- A call of a list has one answer, and leaves one sequence. -/
theorem Answers.unique {s t t' : Sequence} {call : ListCall}
    {answer answer' : Except NativeFault Value} (h : Answers s call answer t)
    (h' : Answers s call answer' t') : answer = answer' ∧ t = t' := by
  cases h with
  | init counts =>
    cases h' with
    | init counts' => cases counts.unique counts'; exact ⟨rfl, rfl⟩
    | uncounted counts' => cases counts.unique counts'
    | pointless asked => cases asked
  | uncounted counts =>
    cases h' with
    | init counts' => cases counts.unique counts'
    | uncounted counts' => cases counts.unique counts'; exact ⟨rfl, rfl⟩
    | pointless asked => cases asked
  | get points elements =>
    cases h' with
    | get points' elements' =>
      obtain ⟨-, rfl, -⟩ := split_unique elements elements' (Except.ok.inj (points.unique points'))
      exact ⟨rfl, rfl⟩
    | pointless asked points' => cases asked; cases points.unique points'
  | set points elements =>
    cases h' with
    | set points' elements' =>
      obtain ⟨rfl, -, rfl⟩ := split_unique elements elements' (Except.ok.inj (points.unique points'))
      exact ⟨rfl, rfl⟩
    | pointless asked points' => cases asked; cases points.unique points'
  | pop points elements =>
    cases h' with
    | pop points' elements' =>
      obtain ⟨rfl, rfl, rfl⟩ := split_unique elements elements' (Except.ok.inj (points.unique points'))
      exact ⟨rfl, rfl⟩
    | pointless asked points' => cases asked; cases points.unique points'
  | pointless asked points =>
    cases h' with
    | get points' => cases asked; cases points.unique points'
    | set points' => cases asked; cases points.unique points'
    | pop points' => cases asked; cases points.unique points'
    | pointless asked' points' =>
      cases Option.some.inj (asked.symm.trans asked')
      cases points.unique points'
      exact ⟨rfl, rfl⟩
    | init | uncounted | append | remove | absent => cases asked
  | append v =>
    cases h' with
    | append => exact ⟨rfl, rfl⟩
    | pointless asked => cases asked
  | remove elements equal first =>
    cases h' with
    | remove elements' equal' first' =>
      obtain ⟨rfl, -, rfl⟩ :=
        first_unique (p := (·.equals _)) elements elements' first first' equal equal'
      exact ⟨rfl, rfl⟩
    | absent unequal =>
      have unequal := unequal _ (elements ▸ List.mem_append_right _ List.mem_cons_self)
      exact absurd equal (Bool.eq_false_iff.1 unequal)
    | pointless asked => cases asked
  | absent unequal =>
    cases h' with
    | remove elements equal =>
      have unequal := unequal _ (elements ▸ List.mem_append_right _ List.mem_cons_self)
      exact absurd equal (Bool.eq_false_iff.1 unequal)
    | absent => exact ⟨rfl, rfl⟩
    | pointless asked => cases asked

/-! ### The routines -/

namespace Store

/-- The sequence that an object holds. -/
def sequence (s : Store) (o : ObjectId) : Sequence := ⟨(s.slots o).toList, s.field? o "length"⟩

theorem sequence_refill {s : Store} {o : ObjectId} (inside : o < s.objects.size) (xs : Array Value) :
    (s.refill o xs).sequence o = .counted xs.toList := by
  unfold sequence Sequence.counted
  rw [slots_refill, field?_refill, if_pos ⟨rfl, inside⟩, if_pos ⟨rfl, rfl, inside⟩, Array.length_toList]

theorem sequence_modifySlots {s : Store} {o : ObjectId} (inside : o < s.objects.size)
    (f : Array Value → Array Value) : (s.modifySlots o f).sequence o =
      { s.sequence o with elements := (f (s.slots o)).toList } := by
  unfold sequence
  rw [slots_modifySlots, field?_modifySlots, if_pos ⟨rfl, inside⟩]

end Store

namespace Native

theorem natural?_eq_some {v : Value} {n : Nat} : natural? v = some n ↔ v.Denotes n := by
  unfold Value.Denotes
  cases v with
  | number x => simp [natural?, Number.toNat?_eq_some]
  | nil | bool | string | callable | «instance» => simp [natural?]

theorem startSize_counts (v : Value) : Counts v (startSize v) := by
  unfold startSize
  cases natural : natural? v with
  | none => exact .other fun n denotes => by cases natural.symm.trans (natural?_eq_some.2 denotes)
  | some n =>
    have denotes := natural?_eq_some.1 natural
    dsimp only
    split
    · next few => exact .within denotes few
    · next many => exact .beyond denotes many

theorem index_points (v : Value) (size : Nat) : Points v size (index v size) := by
  unfold index
  cases natural : natural? v with
  | none => exact .other fun n denotes => by cases natural.symm.trans (natural?_eq_some.2 denotes)
  | some n =>
    have denotes := natural?_eq_some.1 natural
    dsimp only
    split
    · next inside => exact .within denotes inside
    · next outside => exact .beyond denotes outside

/-- The result that goes with an answer. -/
def respond : Except NativeFault Value → Machine → Result NativeFault Machine Value
  | .ok v, n => .ok v n
  | .error cause, n => .error cause n

theorem respond_inj {answer answer' : Except NativeFault Value} {n n' : Machine}
    (same : respond answer n = respond answer' n') : answer = answer' ∧ n = n' := by
  cases answer <;> cases answer' <;> cases same <;> exact ⟨rfl, rfl⟩

theorem exists_respond (r : Result NativeFault Machine Value) : ∃ answer n, r = respond answer n := by
  cases r with
  | ok v n => exact ⟨.ok v, n, rfl⟩
  | error cause n => exact ⟨.error cause, n, rfl⟩

theorem final_respond (answer : Except NativeFault Value) (n : Machine) :
    final (respond answer n) = n := by
  cases answer <;> rfl

/-- All but the elements of one object and its field `length` is as it was. -/
structure Confined (o : ObjectId) (m n : Machine) : Prop where
  store : n = { m with store := n.store }
  frames : n.store.frames = m.store.frames
  size : n.store.objects.size = m.store.objects.size
  slots : ∀ p ≠ o, n.store.slots p = m.store.slots p
  fields : ∀ p x, ¬ (p = o ∧ x = "length") → n.store.field? p x = m.store.field? p x

namespace Confined

variable (o : ObjectId) (m : Machine)

theorem refl : Confined o m m := ⟨rfl, rfl, rfl, fun _ _ => rfl, fun _ _ _ => rfl⟩

theorem refill (xs : Array Value) : Confined o m (m.mapStore (·.refill o xs)) where
  store := rfl
  frames := rfl
  size := m.store.size_refill o xs
  slots p other := (m.store.slots_refill o p xs).trans (if_neg fun here => other here.1)
  fields p x other :=
    (m.store.field?_refill o p xs x).trans (if_neg fun here => other ⟨here.1, here.2.1⟩)

theorem modifySlots (f : Array Value → Array Value) :
    Confined o m (m.mapStore (·.modifySlots o f)) where
  store := rfl
  frames := rfl
  size := by simp [Machine.mapStore, Store.modifySlots]
  slots p other := (slots_modifySlots m.store p o f).trans (if_neg fun here => other here.1)
  fields p x _ := field?_modifySlots m.store p o f x

end Confined

theorem run_confined (o : ObjectId) (call : ListCall) (m : Machine) :
    Confined o m (final (call.routine.run (some o) call.arguments m)) := by
  cases call with
  | init count =>
    show Confined o m (final (startList (some o) count m))
    rw [startList_run]
    cases startSize count with
    | ok n => exact .refill o m _
    | error cause => exact .refl o m
  | get position =>
    show Confined o m (final (elementAt (some o) position m))
    rw [elementAt_run]
    cases index position (m.store.slots o).size <;> exact .refl o m
  | set position v =>
    show Confined o m (final (replaceAt (some o) position v m))
    rw [replaceAt_run]
    cases index position (m.store.slots o).size with
    | ok i => exact .modifySlots o m _
    | error cause => exact .refl o m
  | append v =>
    show Confined o m (final (appendTo (some o) v m))
    rw [appendTo_run]
    exact .refill o m _
  | remove v =>
    show Confined o m (final (removeFrom (some o) v m))
    rw [removeFrom_run]
    cases (m.store.slots o).findIdx? (·.equals v) with
    | some i => exact .refill o m _
    | none => exact .refl o m
  | pop position =>
    show Confined o m (final (popAt (some o) position m))
    rw [popAt_run]
    cases index position (m.store.slots o).size with
    | ok i => exact .refill o m _
    | error cause => exact .refl o m

/-- A call of a list that was answered. -/
structure Served (o : ObjectId) (call : ListCall) (answer : Except NativeFault Value)
    (m n : Machine) : Prop where
  ran : call.routine.run (some o) call.arguments m = respond answer n
  answers : Answers (m.store.sequence o) call answer (n.store.sequence o)
  refused : ∀ cause, answer = .error cause → n = m

/-- The elements around one of them. -/
theorem slot_split {xs : Array Value} {i : Nat} (inside : i < xs.size) : ∃ before after,
    before.length = i ∧ xs.toList = before ++ xs.getD i .nil :: after ∧
      (∀ w, (xs.setIfInBounds i w).toList = before ++ w :: after) ∧
      (xs.eraseIdxIfInBounds i).toList = before ++ after := by
  obtain ⟨l⟩ := xs
  have inside : i < l.length := inside
  have around : l = l.take i ++ l[i] :: l.drop (i + 1) := by
    rw [← List.drop_eq_getElem_cons inside, List.take_append_drop]
  have here : (Array.mk l).getD i .nil = l[i] := by simp [Array.getD, inside]
  refine ⟨l.take i, l.drop (i + 1), List.length_take_of_le (Nat.le_of_lt inside), ?_, fun w => ?_, ?_⟩
  · rw [here]
    exact around
  · simp [List.set_eq_take_append_cons_drop, inside]
  · simp [List.eraseIdx_eq_take_drop_succ]

/-- A call that asks for something at a place in the list. -/
theorem served_at {o : ObjectId} {m : Machine} {call : ListCall} {position : Value}
    (asked : call.position? = some position)
    {hit : Nat → Result NativeFault Machine Value}
    (ran : call.routine.run (some o) call.arguments m =
      match index position (m.store.slots o).size with
      | .ok i => hit i
      | .error cause => .error cause m)
    (here : ∀ i, Points position (m.store.slots o).size (.ok i) → i < (m.store.slots o).size →
      ∃ v n, hit i = .ok v n ∧ Answers (m.store.sequence o) call (.ok v) (n.store.sequence o)) :
    ∃ answer n, Served o call answer m n := by
  have points := index_points position (m.store.slots o).size
  cases at? : index position (m.store.slots o).size with
  | error cause =>
    rw [at?] at ran points
    exact ⟨.error cause, m, ran, .pointless asked points, fun _ _ => rfl⟩
  | ok i =>
    rw [at?] at ran points
    have below : i < (m.store.slots o).size := by
      cases points with
      | within _ below => exact below
    obtain ⟨v, n, is, answers⟩ := here i points below
    exact ⟨.ok v, n, ran.trans is, answers, nofun⟩

section Served

variable {o : ObjectId} {m : Machine} (inside : o < m.store.objects.size)

include inside

theorem served_init (count : Value) : ∃ answer n, Served o (.init count) answer m n := by
  have counts := startSize_counts count
  have ran := startList_run o m count
  cases sized : startSize count with
  | error cause =>
    rw [sized] at ran counts
    exact ⟨.error cause, m, ran, .uncounted counts, fun _ _ => rfl⟩
  | ok n =>
    rw [sized] at ran counts
    refine ⟨.ok .nil, _, ran, ?_, nofun⟩
    rw [Machine.mapStore, Store.sequence_refill inside, Array.toList_replicate]
    exact .init counts

theorem served_append (v : Value) : ∃ answer n, Served o (.append v) answer m n := by
  refine ⟨.ok .nil, _, appendTo_run o m v, ?_, nofun⟩
  rw [Machine.mapStore, Store.sequence_refill inside, Array.toList_push]
  exact .append v

theorem served_remove (v : Value) : ∃ answer n, Served o (.remove v) answer m n := by
  have ran := removeFrom_run o m v
  cases found : (m.store.slots o).findIdx? (·.equals v) with
  | none =>
    rw [found] at ran
    refine ⟨.ok (.bool false), m, ran, .absent fun u mem => ?_, fun _ _ => rfl⟩
    exact Array.findIdx?_eq_none_iff.1 found u (Array.mem_toList_iff.1 mem)
  | some i =>
    rw [found] at ran
    obtain ⟨below, equal, first⟩ := Array.findIdx?_eq_some_iff_getElem.1 found
    obtain ⟨before, after, rfl, elements, -, erased⟩ := slot_split below
    refine ⟨.ok (.bool true), _, ran, ?_, nofun⟩
    rw [Machine.mapStore, Store.sequence_refill inside, erased]
    refine .remove elements ?_ fun u mem => ?_
    · rw [Array.getD_eq_getD_getElem?, Array.getElem?_eq_getElem below]
      exact equal
    · obtain ⟨j, earlier, rfl⟩ := List.getElem_of_mem mem
      have same : (m.store.slots o)[j] = before[j] := by
        rw [← Array.getElem_toList]
        simp only [elements, List.getElem_append_left earlier]
      exact same ▸ Bool.eq_false_iff.2 (first j earlier)

theorem served (call : ListCall) : ∃ answer n, Served o call answer m n := by
  cases call with
  | init count => exact served_init inside count
  | append v => exact served_append inside v
  | remove v => exact served_remove inside v
  | get position =>
    refine served_at rfl (elementAt_run o m position) fun i points below => ?_
    obtain ⟨before, after, rfl, elements, -, -⟩ := slot_split below
    exact ⟨_, m, rfl, .get points elements⟩
  | set position w =>
    refine served_at rfl (replaceAt_run o m position w) fun i points below => ?_
    obtain ⟨before, after, rfl, elements, replaced, -⟩ := slot_split below
    refine ⟨w, _, rfl, ?_⟩
    rw [Machine.mapStore, Store.sequence_modifySlots inside, replaced]
    exact .set points elements
  | pop position =>
    refine served_at rfl (popAt_run o m position) fun i points below => ?_
    obtain ⟨before, after, rfl, elements, -, erased⟩ := slot_split below
    refine ⟨_, _, rfl, ?_⟩
    rw [Machine.mapStore, Store.sequence_refill inside, erased]
    exact .pop points elements

end Served

end Native

end Lox
