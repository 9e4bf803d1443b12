import Lox.Proofs.Grammar.State

/-!
# What rules read

`Reads r D` says that a rule which succeeds without noting a fault has taken tokens from the front
of the input, and that `D` relates them, what is left and the tree. It is closed under sequencing,
so each rule of the grammar needs only what its parts read.
-/

namespace Lox.Grammar

open EStateM (Result)

def final {ε σ α : Type} : Result ε σ α → σ
  | .ok _ s => s
  | .error _ s => s

theorem bind_ok {ε σ α β : Type} {x : EStateM ε σ α} {f : α → EStateM ε σ β} {s t : σ} {b : β}
    (h : (x >>= f) s = .ok b t) : ∃ a m, x s = .ok a m ∧ f a m = .ok b t := by
  change EStateM.bind x f s = _ at h
  unfold EStateM.bind at h
  split at h
  · next a m read => exact ⟨a, m, read, h⟩
  · cases h

theorem bind_of_ok {ε σ α β : Type} {x : EStateM ε σ α} {f : α → EStateM ε σ β} {s m : σ} {a : α}
    (h : x s = .ok a m) : (x >>= f) s = f a m := by
  show EStateM.bind x f s = _
  simp only [EStateM.bind, h]

theorem bind_of_error {ε σ α β : Type} {x : EStateM ε σ α} {f : α → EStateM ε σ β} {s m : σ} {e : ε}
    (h : x s = .error e m) : (x >>= f) s = .error e m := by
  show EStateM.bind x f s = _
  simp only [EStateM.bind, h]

theorem get_bind {ε σ β : Type} (f : σ → EStateM ε σ β) (s : σ) :
    ((get : EStateM ε σ σ) >>= f) s = f s s := rfl

/-- Reading goes on: tokens are only taken from the front, and faults and identities only added. -/
structure Later (s t : State) : Prop where
  rest : t.rest <:+ s.rest
  stop : t.stop = s.stop
  noted : s.noted <+: t.noted
  nextId : s.nextId ≤ t.nextId

theorem Later.refl (s : State) : Later s s :=
  ⟨List.suffix_refl _, rfl, List.prefix_refl _, Nat.le_refl _⟩

theorem Later.trans {s t u : State} (h : Later s t) (k : Later t u) : Later s u :=
  ⟨k.rest.trans h.rest, k.stop.trans h.stop, h.noted.trans k.noted, Nat.le_trans h.nextId k.nextId⟩

theorem Later.noted_eq {s t u : State} (h : Later s t) (k : Later t u) (same : u.noted = s.noted) :
    t.noted = s.noted ∧ u.noted = t.noted := by
  have first : s.noted = t.noted := h.noted.eq_of_length_le (by
    have := k.noted.length_le
    rw [same] at this
    exact this)
  exact ⟨first.symm, same.trans first⟩

theorem later_taken {s : State} {t : Token} {rest : List Token} (h : s.rest = t :: rest) :
    Later s { s with rest } :=
  ⟨by rw [h]; exact List.suffix_cons _ _, rfl, List.prefix_refl _, Nat.le_refl _⟩

/-- A rule only goes on, and its tree is what `D` makes of the tokens that it has taken and those
that it has left, unless it noted a fault on the way. -/
structure Reads {α : Type} (r : Rule α) (D : List Token → List Token → α → Prop) : Prop where
  later : ∀ s, Later s (final (r s))
  derives : ∀ {s a t}, r s = .ok a t → t.noted = s.noted →
    ∃ ts, s.rest = ts ++ t.rest ∧ D ts t.rest a

abbrev Whole {α : Type} (D : List Token → α → Prop) : List Token → List Token → α → Prop :=
  fun ts _ => D ts

def Nothing {α : Type} (a : α) (ts : List Token) (b : α) : Prop := ts = [] ∧ b = a

namespace Reads

variable {α β : Type} {r x : Rule α} {D E : List Token → List Token → α → Prop}

theorem mono (h : Reads r D) (sub : ∀ ts rest a, D ts rest a → E ts rest a) : Reads r E where
  later := h.later
  derives run same :=
    let ⟨ts, read, derived⟩ := h.derives run same
    ⟨ts, read, sub ts _ _ derived⟩

theorem pure (a : α) : Reads (Pure.pure a : Rule α) (Whole (Nothing a)) where
  later s := Later.refl s
  derives {s b t} run same := by
    change Result.ok a s = Result.ok b t at run
    cases run
    exact ⟨[], rfl, rfl, rfl⟩

theorem throw (e : Failure) : Reads (MonadExcept.throw e : Rule α) D where
  later s := Later.refl s
  derives run := nomatch run

theorem bind {f : α → Rule β} {F : α → List Token → List Token → β → Prop} (first : Reads x D)
    (next : ∀ a, Reads (f a) (F a)) :
    Reads (x >>= f) fun ts rest b =>
      ∃ us a vs, ts = us ++ vs ∧ D us (vs ++ rest) a ∧ F a vs rest b where
  later s := by
    have start := first.later s
    cases read : x s with
    | error e m =>
      rw [bind_of_error read]
      rw [read] at start
      exact start
    | ok a m =>
      rw [bind_of_ok read]
      rw [read] at start
      exact start.trans ((next a).later m)
  derives {s b t} run same := by
    obtain ⟨a, m, read, run⟩ := bind_ok run
    have start := first.later s
    have rest := (next a).later m
    rw [read] at start
    rw [run] at rest
    have silent := start.noted_eq rest same
    obtain ⟨us, left, derived⟩ := first.derives read silent.1
    obtain ⟨vs, right, derived'⟩ := (next a).derives run silent.2
    exact ⟨us ++ vs, by rw [left, right, List.append_assoc], us, a, vs, rfl, right ▸ derived,
      derived'⟩

theorem map {f : α → β} (h : Reads x D) :
    Reads (f <$> x) fun ts rest b => ∃ a, D ts rest a ∧ b = f a := by
  have mapped : f <$> x = x >>= fun a => Pure.pure (f a) := (bind_pure_comp f x).symm
  rw [mapped]
  apply (h.bind fun a => pure (f a)).mono
  intro _ _ b derivation
  obtain ⟨us, a, _, rfl, derived, rfl, rfl⟩ := derivation
  exact ⟨a, by simpa using derived, rfl⟩

theorem ite {c : Prop} [Decidable c] {yes no : Rule α} (h : c → Reads yes D)
    (k : ¬ c → Reads no D) : Reads (if c then yes else no) D := by
  split
  · next holds => exact h holds
  · next fails => exact k fails

theorem looking {F : List Token → List Token → β → Prop} (g : State → α) {f : α → Rule β}
    (h : ∀ a, Reads (f a) F) : Reads ((do return g (← get)) >>= f) F where
  later s := (h (g s)).later s
  derives {s _ _} run same := (h (g s)).derives (s := s) run same

theorem seeing {F : List Token → List Token → β → Prop} (k : Kind) {f : Bool → Rule β}
    (h : ∀ b, Reads (f b) F) : Reads (sees k >>= f) F :=
  looking (Reader.check k) h

theorem ending {F : List Token → List Token → β → Prop} {f : Bool → Rule β}
    (h : ∀ b, Reads (f b) F) : Reads (atEnd >>= f) F :=
  looking (fun s => s.rest.isEmpty) h

end Reads

/-! ### Single tokens -/

theorem acceptAny?_cons (kinds : List Kind) (t : Token) (s : State) (rest : List Token)
    (h : s.rest = t :: rest) :
    acceptAny? kinds s =
      if t.kind ∈ kinds then .ok (some t) { s with rest } else .ok none s := by
  obtain ⟨_, stop, noted, nextId⟩ := s
  obtain rfl := h
  have seen : (kinds.any (Reader.check · (⟨t :: rest, stop, noted, nextId⟩ : State))) = true ↔
      t.kind ∈ kinds := by
    simp only [List.any_eq_true, check_eq, List.head?_cons, Option.any_some, beq_iff_eq]
    exact ⟨fun ⟨_, mem, same⟩ => same ▸ mem, fun mem => ⟨_, mem, rfl⟩⟩
  rw [acceptAny?, get_bind]
  split
  · next mem => exact (if_pos (seen.1 mem)).symm
  · next other => exact (if_neg (mt seen.2 other)).symm

theorem acceptAny?_nil (kinds : List Kind) (s : State) (h : s.rest = []) :
    acceptAny? kinds s = .ok none s := by
  have unseen : ¬ (kinds.any (Reader.check · s)) = true := by simp [check_eq, h]
  rw [acceptAny?, get_bind, if_neg unseen]
  rfl

/-- The next token is of none of these kinds, or there is none. -/
def Stops (kinds : List Kind) (rest : List Token) : Prop := ∀ t ∈ rest.head?, t.kind ∉ kinds

theorem acceptAny?_of_stops {kinds : List Kind} {s : State} (h : Stops kinds s.rest) :
    acceptAny? kinds s = .ok none s := by
  cases read : s.rest with
  | nil => exact acceptAny?_nil kinds s read
  | cons t rest =>
    rw [acceptAny?_cons kinds t s rest read, if_neg]
    exact h t (by simp [read])

theorem stops_or_starts (kinds : List Kind) (rest : List Token) :
    Stops kinds rest ∨ ∃ t us, rest = t :: us ∧ t.kind ∈ kinds := by
  cases rest with
  | nil => exact .inl (by simp [Stops])
  | cons t us =>
    by_cases mem : t.kind ∈ kinds
    · exact .inr ⟨t, us, rfl, mem⟩
    · exact .inl (by simpa [Stops] using mem)

/-- A rule that goes on depending on whether a token is accepted. -/
theorem Reads.accepting {β : Type} {kinds : List Kind} {f : Option Token → Rule β}
    {D : Token → List Token → List Token → β → Prop} {E : List Token → List Token → β → Prop}
    (yes : ∀ t, t.kind ∈ kinds → Reads (f (some t)) (D t)) (no : Reads (f none) E) :
    Reads (acceptAny? kinds >>= f) fun ts rest b =>
      (∃ t us, ts = t :: us ∧ t.kind ∈ kinds ∧ D t us rest b) ∨
        (Stops kinds (ts ++ rest) ∧ E ts rest b) where
  later s := by
    rcases stops_or_starts kinds s.rest with stops | ⟨t, us, read, mem⟩
    · rw [bind_of_ok (acceptAny?_of_stops stops)]
      exact no.later s
    · rw [bind_of_ok ((acceptAny?_cons kinds t s us read).trans (if_pos mem))]
      exact (later_taken read).trans ((yes t mem).later _)
  derives {s b u} run same := by
    rcases stops_or_starts kinds s.rest with stops | ⟨t, us, read, mem⟩
    · rw [bind_of_ok (acceptAny?_of_stops stops)] at run
      obtain ⟨ts, split, derived⟩ := no.derives run same
      exact ⟨ts, split, .inr ⟨split ▸ stops, derived⟩⟩
    · rw [bind_of_ok ((acceptAny?_cons kinds t s us read).trans (if_pos mem))] at run
      obtain ⟨ts, split, derived⟩ := (yes t mem).derives run same
      exact ⟨t :: ts, read.trans (congrArg (t :: ·) split), .inl ⟨t, ts, rfl, mem, derived⟩⟩

theorem reads_fail {α : Type} {D : List Token → List Token → α → Prop} (cause : SyntaxFault) :
    Reads (fail cause : Rule α) D :=
  Reads.looking State.peek fun t => Reads.throw (.fault (.grammatical t cause))

theorem fail_bind {α β : Type} (cause : SyntaxFault) (f : α → Rule β) :
    (fail cause >>= f) = fail cause := rfl

/-- A rule that goes on only if the next token is of a kind. -/
theorem Reads.expecting {β : Type} {k : Kind} {cause : SyntaxFault} {f : Token → Rule β}
    {D : Token → List Token → List Token → β → Prop} (h : ∀ t, t.kind = k → Reads (f t) (D t)) :
    Reads (expect k cause >>= f) fun ts rest b =>
      ∃ t us, ts = t :: us ∧ t.kind = k ∧ D t us rest b := by
  rw [expect, accept?, bind_assoc]
  refine (Reads.accepting (D := D) (E := fun _ _ _ => False) (fun t mem => ?_)
    ?_).mono ?_
  · simpa only [pure_bind] using h t (by simpa using mem)
  · rw [fail_bind]
    exact reads_fail cause
  · intro _ _ b derivation
    rcases derivation with ⟨t, us, rfl, mem, derived⟩ | ⟨-, impossible⟩
    · exact ⟨t, us, rfl, by simpa using mem, derived⟩
    · exact impossible.elim

theorem reads_note (place : Token) (cause : SyntaxFault)
    {D : List Token → List Token → Unit → Prop} : Reads (note place cause) D where
  later s := ⟨List.suffix_refl _, rfl, List.prefix_append _ _, Nat.le_refl _⟩
  derives {s a t} run same := by
    have noted : t.noted = s.noted ++ [.grammatical place cause] := by
      change Result.ok () _ = Result.ok a t at run
      injection run with _ after
      exact after ▸ rfl
    exact absurd (noted.symm.trans same) (by simp)

theorem reads_noteHere (cause : SyntaxFault) {D : List Token → List Token → Unit → Prop} :
    Reads (noteHere cause) D :=
  Reads.looking State.peek fun t => reads_note t cause

/-- A rule that goes on in the same way after a fault it may have noted. -/
theorem Reads.unlessNoted {β : Type} {c : Prop} [Decidable c] {x : Rule Unit} {k : Unit → Rule β}
    {D E : List Token → List Token → β → Prop} (faulty : ∀ D, Reads x D) (rest : Reads (k ()) E)
    (sub : ¬ c → ∀ ts rest b, E ts rest b → D ts rest b) :
    Reads (if c then x >>= k else k ()) D := by
  refine Reads.ite (fun _ => ?_) fun fails => rest.mono (sub fails)
  apply ((faulty fun _ _ _ => False).bind fun _ => rest).mono
  intro _ _ _ derivation
  obtain ⟨_, _, _, _, impossible, _⟩ := derivation
  exact impossible.elim

theorem Reads.numbering {β : Type} {D : NodeId → List Token → List Token → β → Prop}
    {f : NodeId → Rule β} (h : ∀ id, Reads (f id) (D id)) :
    Reads (freshId >>= f) fun ts rest b => ∃ id, D id ts rest b where
  later s :=
    have counted : Later s { s with nextId := s.nextId + 1 } :=
      ⟨List.suffix_refl _, rfl, List.prefix_refl _, Nat.le_succ _⟩
    counted.trans ((h s.nextId).later _)
  derives {s _ _} run same :=
    let ⟨ts, split, derived⟩ := (h s.nextId).derives (s := { s with nextId := s.nextId + 1 }) run same
    ⟨ts, split, s.nextId, derived⟩

/-- One round of `declarations`, once it is known whether the closing token is next. -/
def declarationsRound (closer : Option Kind) (one : Rule (Option Stmt)) (fuel : Nat)
    (closed : Bool) : Rule (List Stmt) :=
  atEnd >>= fun ended =>
    if closed || ended then return []
    else do
      match ← one with
      | some s => return s :: (← declarations closer one fuel)
      | none => declarations closer one fuel

theorem declarations_unclosed (one : Rule (Option Stmt)) (fuel : Nat) :
    declarations none one (fuel + 1) = declarationsRound none one fuel false := rfl

theorem declarations_closed (k : Kind) (one : Rule (Option Stmt)) (fuel : Nat) :
    declarations (some k) one (fuel + 1) = sees k >>= declarationsRound (some k) one fuel := rfl

end Lox.Grammar
