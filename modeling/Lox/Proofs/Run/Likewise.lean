import Lox.Proofs.Run.Likeness

/-!
# Steps beside the frames

Computations that touch neither frames nor distances do the same on machines that differ in closures
that count as the same, above all the supplied routines (`run_likewise`).
-/

namespace Lox

open EStateM (Result)

/-- What no computation changes for good: the scopes in reach, the table of distances and the number
of the next node. -/
structure Steady (m n : Machine) : Prop where
  env : n.env = m.env
  distances : n.distances = m.distances
  nextNode : n.nextNode = m.nextNode

theorem Steady.refl (m : Machine) : Steady m m := ⟨rfl, rfl, rfl⟩

theorem Steady.trans {m n o : Machine} (h : Steady m n) (k : Steady n o) : Steady m o :=
  ⟨k.env.trans h.env, k.distances.trans h.distances, k.nextNode.trans h.nextNode⟩

/-- A step that leaves frames as they are, too. -/
structure Aside (m n : Machine) : Prop extends Steady m n where
  frames : n.store.frames = m.store.frames

theorem Aside.refl (m : Machine) : Aside m m := ⟨Steady.refl m, rfl⟩

theorem Aside.trans {m n o : Machine} (h : Aside m n) (k : Aside n o) : Aside m o :=
  ⟨h.toSteady.trans k.toSteady, k.frames.trans h.frames⟩

/-! ### What the machines share -/

structure LikeObject (K : Likeness) (o o' : Object) : Prop where
  fields : ∀ x : String, Option.Rel (LikeValue K) (o.fields[x]?) (o'.fields[x]?)
  slots : List.Forall₂ (LikeValue K) o.slots.toList o'.slots.toList

theorem LikeObject.mono {K L : Likeness} {o o' : Object} (h : LikeObject K o o') (le : K.Le L) :
    LikeObject L o o' :=
  ⟨fun x => rel_mono (h.fields x) fun _ _ same => same.mono le,
    h.slots.imp fun _ _ same => same.mono le⟩

/-- Objects, streams and identities are the same in both machines. -/
structure LikeState (K : Likeness) (m m' : Machine) : Prop where
  count : m.store.objects.size = m'.store.objects.size
  objects : ∀ i : Nat, Option.Rel (LikeObject K) (m.store.objects[i]?) (m'.store.objects[i]?)
  input : m.input = m'.input
  sink : m.sink = m'.sink
  clock : m.clock = m'.clock
  ticks : m.ticks = m'.ticks
  nextIdentity : m.nextIdentity = m'.nextIdentity

theorem LikeState.mono {K L : Likeness} {m m' : Machine} (h : LikeState K m m') (le : K.Le L) :
    LikeState L m m' :=
  { h with objects := fun i => rel_mono (h.objects i) fun _ _ same => same.mono le }

theorem LikeState.refl (m : Machine) : LikeState .equality m m := by
  refine ⟨rfl, fun i => ?_, rfl, rfl, rfl, rfl, rfl⟩
  cases m.store.objects[i]? with
  | none => exact .none
  | some o =>
    refine .some ⟨fun x => ?_, List.forall₂_same.2 fun v _ => LikeValue.refl v⟩
    cases o.fields[x]? with
    | none => exact .none
    | some v => exact .some (LikeValue.refl v)

/-! ### The start -/

theorem getHere?_puts (values : List (String × Value)) (s : Store) (nonempty : 0 < s.frames.size)
    (f : FrameId) (x : String) :
    (values.foldl (fun s p => s.put globalFrame p.1 p.2) s).getHere? f x =
      if f = globalFrame then (values.reverse.lookup x).or (s.getHere? f x)
      else s.getHere? f x := by
  induction values generalizing s with
  | nil => simp
  | cons p values ih =>
    obtain ⟨name, v⟩ := p
    have size : 0 < (s.put globalFrame name v).frames.size := by simpa [Store.put] using nonempty
    rw [List.foldl_cons, ih _ size, List.reverse_cons, List.lookup_append, List.lookup_cons,
      s.getHere?_put globalFrame f name x v nonempty]
    by_cases isGlobal : f = globalFrame
    · rw [if_pos isGlobal, if_pos isGlobal]
      by_cases same : x = name
      · rw [if_pos ⟨isGlobal, same⟩, same, beq_self_eq_true, Option.or_assoc]
        rfl
      · rw [if_neg fun both => same both.2, beq_false_of_ne same]
        simp
    · rw [if_neg isGlobal, if_neg isGlobal, if_neg fun both => isGlobal both.1]

theorem startStore_getHere? (f : FrameId) (x : String) :
    Machine.startStore.getHere? f x =
      if f = globalFrame then Machine.supplied.reverse.lookup x else none := by
  have empty : ((Store.empty.child []).2.allocate).2.getHere? f x = none := by
    cases f with
    | zero => rfl
    | succ f => rfl
  unfold Machine.startStore
  dsimp only
  rw [getHere?_puts Machine.supplied _ (by exact Nat.zero_lt_one), empty, Option.or_none]

/-- At the start there are no closures. -/
theorem likeState_start (K : Likeness) (input : List UInt8) (sink : Sink) (clock : Nat → Float) :
    LikeState K (.start input sink clock) (.start input sink clock) := by
  refine ⟨rfl, fun i => ?_, rfl, rfl, rfl, rfl, rfl⟩
  show Option.Rel _ ((#[⟨∅, #[]⟩] : Array Object)[i]?) ((#[⟨∅, #[]⟩] : Array Object)[i]?)
  cases i with
  | zero => exact .some ⟨fun x => by simp, .nil⟩
  | succ i => exact .none

/-! ### Computations on it -/

/-- Two computations that started in `m` and `m'` ended alike. -/
inductive LikewiseResult {ε α β : Type} (K : Likeness) (m m' : Machine) (P : α → β → Prop) :
    Result ε Machine α → Result ε Machine β → Prop
  | ok {a : α} {b : β} {n n' : Machine} (shared : LikeState K n n') (aside : Aside m n)
      (aside' : Aside m' n') (holds : P a b) : LikewiseResult K m m' P (.ok a n) (.ok b n')
  | error {e : ε} {n n' : Machine} (shared : LikeState K n n') (aside : Aside m n)
      (aside' : Aside m' n') : LikewiseResult K m m' P (.error e n) (.error e n')

/-- The computations do the same to what the machines share, and nothing else. -/
def Likewise {ε α β : Type} (K : Likeness) (x : EStateM ε Machine α) (y : EStateM ε Machine β)
    (P : α → β → Prop) : Prop :=
  ∀ m m', LikeState K m m' → LikewiseResult K m m' P (x m) (y m')

namespace Likewise

variable {ε α β γ δ : Type} {K : Likeness} {P : α → β → Prop}

theorem pure {a : α} {b : β} (holds : P a b) :
    Likewise K (Pure.pure a : EStateM ε Machine α) (Pure.pure b) P :=
  fun _ _ shared => .ok shared (Aside.refl _) (Aside.refl _) holds

theorem throw (e : ε) :
    Likewise K (MonadExcept.throw e : EStateM ε Machine α) (MonadExcept.throw e) P :=
  fun _ _ shared => .error shared (Aside.refl _) (Aside.refl _)

theorem bind {x : EStateM ε Machine α} {y : EStateM ε Machine β} {f : α → EStateM ε Machine γ}
    {g : β → EStateM ε Machine δ} {Q : γ → δ → Prop} (first : Likewise K x y P)
    (next : ∀ a b, P a b → Likewise K (f a) (g b) Q) : Likewise K (x >>= f) (y >>= g) Q := by
  intro m m' shared
  have start := first m m' shared
  show LikewiseResult K m m' Q (EStateM.bind x f m) (EStateM.bind y g m')
  unfold EStateM.bind
  generalize x m = r at start ⊢
  generalize y m' = r' at start ⊢
  cases start with
  | ok shared aside aside' holds =>
    have rest := next _ _ holds _ _ shared
    dsimp only
    generalize f _ _ = t at rest ⊢
    generalize g _ _ = t' at rest ⊢
    cases rest with
    | ok shared more more' holds => exact .ok shared (aside.trans more) (aside'.trans more') holds
    | error shared more more' => exact .error shared (aside.trans more) (aside'.trans more')
  | error shared aside aside' => exact .error shared aside aside'

theorem mono {x : EStateM ε Machine α} {y : EStateM ε Machine β} (h : Likewise K x y P)
    {Q : α → β → Prop} (imp : ∀ a b, P a b → Q a b) : Likewise K x y Q := by
  intro m m' shared
  have done := h m m' shared
  generalize x m = r at done ⊢
  generalize y m' = r' at done ⊢
  cases done with
  | ok shared aside aside' holds => exact .ok shared aside aside' (imp _ _ holds)
  | error shared aside aside' => exact .error shared aside aside'

theorem get {f : Machine → EStateM ε Machine α} {g : Machine → EStateM ε Machine β}
    (h : ∀ m m', LikeState K m m' → Likewise K (f m) (g m') P) :
    Likewise K (MonadState.get >>= f) (MonadState.get >>= g) P :=
  fun m m' shared => h m m' shared m m' shared

theorem modifyGet {f : Machine → α × Machine} {g : Machine → β × Machine}
    (h : ∀ m m', LikeState K m m' →
      LikeState K (f m).2 (g m').2 ∧ Aside m (f m).2 ∧ Aside m' (g m').2 ∧ P (f m).1 (g m').1) :
    Likewise K (MonadStateOf.modifyGet f : EStateM ε Machine α) (MonadStateOf.modifyGet g) P := by
  intro m m' shared
  obtain ⟨after, aside, aside', holds⟩ := h m m' shared
  exact .ok after aside aside' holds

theorem modify {f g : Machine → Machine}
    (h : ∀ m m', LikeState K m m' → LikeState K (f m) (g m') ∧ Aside m (f m) ∧ Aside m' (g m')) :
    Likewise K (MonadStateOf.modifyGet (fun m => ((), f m)) : EStateM ε Machine Unit)
      (MonadStateOf.modifyGet fun m => ((), g m)) fun _ _ => True :=
  modifyGet fun m m' shared => by
    obtain ⟨after, aside, aside'⟩ := h m m' shared
    exact ⟨after, aside, aside', trivial⟩

end Likewise

/-! ### Errors -/

section Errors

variable {α β : Type} {K : Likeness} {P : α → β → Prop}

theorem fail_likewise (line : Nat) (cause : RuntimeFault) :
    Likewise K (fail line cause : Eval α) (fail line cause : Eval β) P :=
  Likewise.throw _

theorem orFail_likewise (line : Nat) (cause : RuntimeFault) {a : Option α} {b : Option β}
    (h : Option.Rel P a b) : Likewise K (orFail line cause a) (orFail line cause b) P := by
  cases h with
  | none => exact fail_likewise line cause
  | some holds => exact Likewise.pure holds

end Errors

/-! ### Identities and output -/

section Steps

variable {K : Likeness}

theorem freshIdentity_likewise : Likewise K freshIdentity freshIdentity Eq := by
  apply Likewise.modifyGet
  intro m m' shared
  refine ⟨{ shared with nextIdentity := ?_ }, ⟨⟨rfl, rfl, rfl⟩, rfl⟩, ⟨⟨rfl, rfl, rfl⟩, rfl⟩,
    shared.nextIdentity⟩
  exact congrArg (· + 1) shared.nextIdentity

theorem printLine_likewise (text : String) : Likewise K (printLine text) (printLine text) Eq := by
  refine Likewise.bind (P := Eq) (Likewise.modifyGet fun m m' shared => ?_) fun fits _ same => ?_
  · rw [shared.sink]
    refine ⟨{ shared with sink := rfl }, ⟨⟨rfl, rfl, rfl⟩, rfl⟩, ⟨⟨rfl, rfl, rfl⟩, rfl⟩, rfl⟩
  · subst same
    cases fits with
    | true => exact Likewise.pure rfl
    | false => exact Likewise.throw _

/-! ### Objects -/

theorem LikeState.modifyObject {m m' : Machine} (h : LikeState K m m') (object : ObjectId)
    {f f' : Object → Object} (step : ∀ o o', LikeObject K o o' → LikeObject K (f o) (f' o')) :
    LikeState K (m.mapStore fun s => { s with objects := s.objects.modify object f })
      (m'.mapStore fun s => { s with objects := s.objects.modify object f' }) := by
  refine { h with count := ?_, objects := fun i => ?_ }
  · simpa [Machine.mapStore] using h.count
  · simp only [Machine.mapStore, Array.getElem?_modify]
    have before := h.objects i
    by_cases mine : object = i
    · rw [if_pos mine, if_pos mine]
      generalize m.store.objects[i]? = a at before ⊢
      generalize m'.store.objects[i]? = b at before ⊢
      cases before with
      | none => exact .none
      | some same => exact .some (step _ _ same)
    · rw [if_neg mine, if_neg mine]
      exact before

theorem modifyObject_likewise {ε : Type} (object : ObjectId) {f f' : Object → Object}
    (step : ∀ o o', LikeObject K o o' → LikeObject K (f o) (f' o')) :
    Likewise K
      (modify fun m => m.mapStore fun s => { s with objects := s.objects.modify object f } :
        EStateM ε Machine Unit)
      (modify fun m => m.mapStore fun s => { s with objects := s.objects.modify object f' })
      fun _ _ => True :=
  Likewise.modify fun _ _ shared =>
    ⟨shared.modifyObject object step, ⟨⟨rfl, rfl, rfl⟩, rfl⟩, ⟨⟨rfl, rfl, rfl⟩, rfl⟩⟩

theorem setField_likewise {ε : Type} (object : ObjectId) (name : String) {v v' : Value}
    (same : LikeValue K v v') :
    Likewise K (modify (·.mapStore (·.setField object name v)) : EStateM ε Machine Unit)
      (modify (·.mapStore (·.setField object name v'))) fun _ _ => True := by
  refine modifyObject_likewise object fun o o' before => ⟨fun x => ?_, before.slots⟩
  rw [Std.TreeMap.getElem?_insert, Std.TreeMap.getElem?_insert]
  split
  · exact .some same
  · exact before.fields x

theorem modifySlots_likewise (object : ObjectId) {f f' : Array Value → Array Value}
    (step : ∀ a a', List.Forall₂ (LikeValue K) a.toList a'.toList →
      List.Forall₂ (LikeValue K) (f a).toList (f' a').toList) :
    Likewise K (Native.modifySlots object f) (Native.modifySlots object f') fun _ _ => True :=
  modifyObject_likewise object fun _ _ before => ⟨before.fields, step _ _ before.slots⟩

theorem allocate_likewise {ε : Type} :
    Likewise K (modifyGet (·.withStore (·.allocate)) : EStateM ε Machine ObjectId)
      (modifyGet (·.withStore (·.allocate))) Eq := by
  apply Likewise.modifyGet
  intro m m' shared
  refine ⟨{ shared with count := ?_, objects := fun i => ?_ }, ⟨⟨rfl, rfl, rfl⟩, rfl⟩,
    ⟨⟨rfl, rfl, rfl⟩, rfl⟩, shared.count⟩
  · simp [Machine.withStore, Store.allocate, shared.count]
  · simp only [Machine.withStore, Store.allocate, Array.getElem?_push, shared.count]
    split
    · exact .some ⟨fun x => by simp, .nil⟩
    · exact shared.objects i

theorem LikeState.field? {m m' : Machine} (h : LikeState K m m') (object : ObjectId) (name : String) :
    Option.Rel (LikeValue K) (m.store.field? object name) (m'.store.field? object name) := by
  have same := h.objects object
  unfold Store.field?
  generalize m.store.objects[object]? = a at same ⊢
  generalize m'.store.objects[object]? = b at same ⊢
  cases same with
  | none => exact .none
  | some same => exact same.fields name

theorem LikeState.slots {m m' : Machine} (h : LikeState K m m') (object : ObjectId) :
    List.Forall₂ (LikeValue K) (m.store.slots object).toList (m'.store.slots object).toList := by
  have same := h.objects object
  unfold Store.slots
  generalize m.store.objects[object]? = a at same ⊢
  generalize m'.store.objects[object]? = b at same ⊢
  cases same with
  | none => exact .nil
  | some same => exact same.slots

/-! ### Supplied routines -/

theorem natural?_same {v v' : Value} (h : LikeValue K v v') :
    Native.natural? v = Native.natural? v' := by
  cases h <;> rfl

theorem nextLine_likewise : Likewise K Native.nextLine Native.nextLine Eq := by
  apply Likewise.modifyGet
  intro m m' shared
  rw [shared.input]
  exact ⟨{ shared with input := rfl }, ⟨⟨rfl, rfl, rfl⟩, rfl⟩, ⟨⟨rfl, rfl, rfl⟩, rfl⟩, rfl⟩

theorem clockReading_likewise : Likewise K Native.clockReading Native.clockReading (LikeValue K) := by
  apply Likewise.modifyGet
  intro m m' shared
  refine ⟨{ shared with ticks := ?_ }, ⟨⟨rfl, rfl, rfl⟩, rfl⟩, ⟨⟨rfl, rfl, rfl⟩, rfl⟩, ?_⟩
  · exact congrArg (· + 1) shared.ticks
  · rw [shared.clock, shared.ticks]
    exact .number _

theorem readText_likewise : Likewise K Native.readText Native.readText (LikeValue K) := by
  apply nextLine_likewise.bind
  intro line _ same
  subst same
  cases line with
  | text s => exact Likewise.pure (.string s)
  | ended => exact Likewise.pure .nil
  | fault cause => exact Likewise.throw _

theorem readNumber_likewise : Likewise K Native.readNumber Native.readNumber (LikeValue K) := by
  apply nextLine_likewise.bind
  intro line _ same
  subst same
  cases line with
  | text s =>
    dsimp only
    split
    · exact Likewise.pure (.number _)
    · exact Likewise.throw _
  | ended => exact Likewise.throw _
  | fault cause => exact Likewise.throw _

theorem receiver_likewise (object : Option ObjectId) :
    Likewise K (Native.receiver object) (Native.receiver object) Eq := by
  cases object with
  | none => exact Likewise.throw _
  | some o => exact Likewise.pure rfl

theorem slots_likewise (object : ObjectId) :
    Likewise K (Native.slots object) (Native.slots object)
      fun a b => List.Forall₂ (LikeValue K) a.toList b.toList :=
  Likewise.get fun _ _ shared => Likewise.pure (shared.slots object)

theorem size_likewise (object : ObjectId) : Likewise K (Native.size object) (Native.size object) Eq :=
  (slots_likewise object).bind fun _ _ same => Likewise.pure (by simpa using same.length_eq)

theorem syncLength_likewise (object : ObjectId) :
    Likewise K (Native.syncLength object) (Native.syncLength object) fun _ _ => True := by
  apply (size_likewise object).bind
  intro n _ same
  subst same
  exact setField_likewise object "length" (.number _)

theorem liftExcept_likewise {α : Type} (r : Except NativeFault α) :
    Likewise K (liftExcept r : Native.Action α) (liftExcept r) Eq := by
  cases r with
  | ok a => exact Likewise.pure rfl
  | error e => exact Likewise.throw e

theorem startList_likewise (object : Option ObjectId) {v v' : Value} (same : LikeValue K v v') :
    Likewise K (Native.startList object v) (Native.startList object v') (LikeValue K) := by
  unfold Native.startList Native.startSize
  rw [natural?_same same]
  apply (liftExcept_likewise _).bind
  intro n _ count
  subst count
  apply (receiver_likewise object).bind
  intro o _ mine
  subst mine
  refine (modifySlots_likewise o fun _ _ _ => ?_).bind fun _ _ _ =>
    (syncLength_likewise o).bind fun _ _ _ => Likewise.pure .nil
  rw [Array.toList_replicate]
  apply List.forall₂_same.2
  intro v mem
  rw [List.eq_of_mem_replicate mem]
  exact .nil

theorem getD_same {a b : Array Value} (h : List.Forall₂ (LikeValue K) a.toList b.toList) (i : Nat) :
    LikeValue K (a.getD i .nil) (b.getD i .nil) := by
  have length : a.size = b.size := by simpa using h.length_eq
  rw [Array.getD_eq_getD_getElem?, Array.getD_eq_getD_getElem?]
  by_cases inside : i < a.size
  · have inside' : i < b.size := length ▸ inside
    rw [Array.getElem?_eq_getElem inside, Array.getElem?_eq_getElem inside']
    exact h.get inside inside'
  · rw [Array.getElem?_eq_none (Nat.le_of_not_lt inside),
      Array.getElem?_eq_none (Nat.le_of_not_lt (length ▸ inside))]
    exact .nil

theorem elementAt_likewise (object : Option ObjectId) {v v' : Value} (same : LikeValue K v v') :
    Likewise K (Native.elementAt object v) (Native.elementAt object v') (LikeValue K) := by
  unfold Native.elementAt Native.index
  rw [natural?_same same]
  apply (receiver_likewise object).bind
  intro o _ mine
  subst mine
  apply (slots_likewise o).bind
  intro a b elements
  have length : a.size = b.size := by simpa using elements.length_eq
  rw [length]
  apply (liftExcept_likewise _).bind
  intro i _ position
  subst position
  exact Likewise.pure (getD_same elements i)

theorem set_same {v v' : Value} (new : LikeValue K v v') {a b : List Value}
    (h : List.Forall₂ (LikeValue K) a b) (i : Nat) :
    List.Forall₂ (LikeValue K) (a.set i v) (b.set i v') := by
  induction h generalizing i with
  | nil => exact .nil
  | cons head rest ih =>
    cases i with
    | zero => exact .cons new rest
    | succ i => exact .cons head (ih i)

theorem replaceAt_likewise (object : Option ObjectId) {v v' w w' : Value} (same : LikeValue K v v')
    (new : LikeValue K w w') :
    Likewise K (Native.replaceAt object v w) (Native.replaceAt object v' w') (LikeValue K) := by
  unfold Native.replaceAt Native.index
  rw [natural?_same same]
  apply (receiver_likewise object).bind
  intro o _ mine
  subst mine
  apply (size_likewise o).bind
  intro n _ count
  subst count
  apply (liftExcept_likewise _).bind
  intro i _ position
  subst position
  refine (modifySlots_likewise o fun a b elements => ?_).bind fun _ _ _ => Likewise.pure new
  rw [Array.toList_setIfInBounds, Array.toList_setIfInBounds]
  exact set_same new elements i

theorem appendTo_likewise (object : Option ObjectId) {v v' : Value} (same : LikeValue K v v') :
    Likewise K (Native.appendTo object v) (Native.appendTo object v') (LikeValue K) := by
  apply (receiver_likewise object).bind
  intro o _ mine
  subst mine
  refine (modifySlots_likewise o fun a b elements => ?_).bind fun _ _ _ =>
    (syncLength_likewise o).bind fun _ _ _ => Likewise.pure .nil
  rw [Array.toList_push, Array.toList_push]
  exact List.rel_append elements (.cons same .nil)

theorem eraseIdx_same (i : Nat) {a b : Array Value}
    (h : List.Forall₂ (LikeValue K) a.toList b.toList) :
    List.Forall₂ (LikeValue K) (a.eraseIdxIfInBounds i).toList (b.eraseIdxIfInBounds i).toList := by
  rw [Array.toList_eraseIdxIfInBounds, Array.toList_eraseIdxIfInBounds,
    List.eraseIdx_eq_take_drop_succ, List.eraseIdx_eq_take_drop_succ]
  exact List.rel_append (List.forall₂_take i h) (List.forall₂_drop (i + 1) h)

theorem findIdx?_same {v v' : Value} (same : LikeValue K v v') {a b : List Value}
    (h : List.Forall₂ (LikeValue K) a b) : a.findIdx? (·.equals v) = b.findIdx? (·.equals v') := by
  induction h with
  | nil => rfl
  | cons head _ ih => rw [List.findIdx?_cons, List.findIdx?_cons, head.equals same, ih]

theorem removeFrom_likewise (object : Option ObjectId) {v v' : Value} (same : LikeValue K v v') :
    Likewise K (Native.removeFrom object v) (Native.removeFrom object v') (LikeValue K) := by
  apply (receiver_likewise object).bind
  intro o _ mine
  subst mine
  apply (slots_likewise o).bind
  intro a b elements
  have found : a.findIdx? (·.equals v) = b.findIdx? (·.equals v') := by
    obtain ⟨a⟩ := a
    obtain ⟨b⟩ := b
    rw [List.findIdx?_toArray, List.findIdx?_toArray, findIdx?_same same elements]
  rw [found]
  cases b.findIdx? (·.equals v') with
  | none => exact Likewise.pure (.bool false)
  | some i =>
    exact (modifySlots_likewise o fun _ _ => eraseIdx_same i).bind fun _ _ _ =>
      (syncLength_likewise o).bind fun _ _ _ => Likewise.pure (.bool true)

theorem popAt_likewise (object : Option ObjectId) {v v' : Value} (same : LikeValue K v v') :
    Likewise K (Native.popAt object v) (Native.popAt object v') (LikeValue K) := by
  unfold Native.popAt Native.index
  rw [natural?_same same]
  apply (receiver_likewise object).bind
  intro o _ mine
  subst mine
  apply (size_likewise o).bind
  intro n _ count
  subst count
  apply (liftExcept_likewise _).bind
  intro i _ position
  subst position
  apply (slots_likewise o).bind
  intro a b elements
  exact (modifySlots_likewise o fun _ _ => eraseIdx_same i).bind fun _ _ _ =>
    (syncLength_likewise o).bind fun _ _ _ => Likewise.pure (getD_same elements i)

theorem argument_same {vs vs' : List Value} (h : List.Forall₂ (LikeValue K) vs vs') (i : Nat) :
    LikeValue K (vs.getD i .nil) (vs'.getD i .nil) := by
  induction h generalizing i with
  | nil => exact .nil
  | cons head _ ih =>
    cases i with
    | zero => exact head
    | succ i => exact ih i

theorem run_likewise (op : Native) (object : Option ObjectId) {vs vs' : List Value}
    (h : List.Forall₂ (LikeValue K) vs vs') :
    Likewise K (op.run object vs) (op.run object vs') (LikeValue K) := by
  have first := argument_same h 0
  have second := argument_same h 1
  cases op with
  | clock => exact clockReading_likewise
  | read => exact readText_likewise
  | readNum => exact readNumber_likewise
  | listInit => exact startList_likewise object first
  | listGet => exact elementAt_likewise object first
  | listSet => exact replaceAt_likewise object first second
  | listAppend => exact appendTo_likewise object first
  | listRemove => exact removeFrom_likewise object first
  | listPop => exact popAt_likewise object first

theorem callNative_likewise (op : Native) (object : Option ObjectId) {vs vs' : List Value}
    (h : List.Forall₂ (LikeValue K) vs vs') (paren : Token) :
    Likewise K (callNative op object vs paren) (callNative op object vs' paren) (LikeValue K) := by
  intro m m' shared
  have done := run_likewise op object h m m' shared
  unfold callNative
  generalize op.run object vs m = r at done ⊢
  generalize op.run object vs' m' = r' at done ⊢
  cases done with
  | ok shared aside aside' same => exact .ok shared aside aside' same
  | error shared aside aside' => exact .error shared aside aside'

end Steps

end Lox
