import Lox.Proofs.Grammar.Soundness.Expression

/-!
# Expressions that are read to an end

`Settles bound taken x y` is about a rule `x` and the same rule `y` with another depth. While fewer
than `bound` tokens are left, neither runs out of depth and both come to the same. No token comes
back, and success takes at least `taken` of them, which is why a depth of the number of tokens is
enough: every level of nesting stands behind a token (`settles_expression`).
-/

namespace Lox.Grammar

open EStateM (Result)

/-- The depth did not run out, no token came back, and success took at least `taken`. -/
def Advances {α : Type} (taken : Nat) (s : State) : Result Failure State α → Prop
  | .ok _ t => t.rest.length + taken ≤ s.rest.length
  | .error (.fault _) t => t.rest.length ≤ s.rest.length
  | .error .outOfFuel _ => False

structure SettlesAt {α : Type} (taken : Nat) (x y : Rule α) (s : State) : Prop where
  same : x s = y s
  advances : Advances taken s (x s)

/-- Two rules come to the same and advance while fewer than `bound` tokens are left. -/
def Settles {α : Type} (bound taken : Nat) (x y : Rule α) : Prop :=
  ∀ s, s.rest.length < bound → SettlesAt taken x y s

theorem Advances.mono {α : Type} {taken less : Nat} {s : State} {r : Result Failure State α}
    (h : Advances taken s r) (le : less ≤ taken) : Advances less s r := by
  match r, h with
  | .ok _ t, h =>
    have moved : t.rest.length + taken ≤ s.rest.length := h
    show t.rest.length + less ≤ s.rest.length
    omega
  | .error (.fault _) _, h => exact h

/-- What advances from a state that is further on has advanced. -/
theorem Advances.from {α : Type} {taken more total : Nat} {s t : State}
    {r : Result Failure State α} (moved : t.rest.length + taken ≤ s.rest.length)
    (h : Advances more t r) (le : total ≤ taken + more) : Advances total s r := by
  match r, h with
  | .ok _ u, h =>
    have moved' : u.rest.length + more ≤ t.rest.length := h
    show u.rest.length + total ≤ s.rest.length
    omega
  | .error (.fault _) u, h =>
    have moved' : u.rest.length ≤ t.rest.length := h
    show u.rest.length ≤ s.rest.length
    omega

theorem SettlesAt.bind {α β : Type} {x y : Rule α} {f g : α → Rule β} {s : State}
    {first more taken : Nat} (h : SettlesAt first x y s)
    (next : ∀ a t, t.rest.length + first ≤ s.rest.length → SettlesAt more (f a) (g a) t)
    (le : taken ≤ first + more) : SettlesAt taken (x >>= f) (y >>= g) s := by
  obtain ⟨same, advances⟩ := h
  cases run : x s with
  | ok a t =>
    rw [run] at same advances
    have moved : t.rest.length + first ≤ s.rest.length := advances
    obtain ⟨same', advances'⟩ := next a t moved
    refine ⟨?_, ?_⟩
    · rw [bind_of_ok run, bind_of_ok same.symm, same']
    · rw [bind_of_ok run]
      exact advances'.from moved le
  | error e t =>
    rw [run] at same advances
    refine ⟨?_, ?_⟩
    · rw [bind_of_error run, bind_of_error same.symm]
    · rw [bind_of_error run]
      cases e with
      | fault => exact advances
      | outOfFuel => exact advances.elim

namespace Settles

variable {α β : Type} {x y : Rule α} {f g : α → Rule β} {bound taken : Nat}

theorem none : Settles 0 taken x y := fun _ room => absurd room (Nat.not_lt_zero _)

theorem mono {less fewer : Nat} (h : Settles bound taken x y) (lower : less ≤ bound)
    (le : fewer ≤ taken) : Settles less fewer x y := by
  intro s room
  obtain ⟨same, advances⟩ := h s (Nat.lt_of_lt_of_le room lower)
  exact ⟨same, advances.mono le⟩

theorem pure (a : α) : Settles bound 0 (Pure.pure a) (Pure.pure a) :=
  fun _ _ => ⟨rfl, Nat.le_refl _⟩

theorem fail (cause : SyntaxFault) :
    Settles bound taken (Grammar.fail cause : Rule α) (Grammar.fail cause) :=
  fun _ _ => ⟨rfl, Nat.le_refl _⟩

theorem bind {m n : Nat} (h : Settles bound m x y)
    (next : ∀ a, Settles (bound - m) n (f a) (g a)) (le : taken ≤ m + n) :
    Settles bound taken (x >>= f) (y >>= g) :=
  fun s room => (h s room).bind (fun a t moved => next a t (by omega)) le

theorem map {h : α → β} (inner : Settles bound taken x y) :
    Settles bound taken (h <$> x) (h <$> y) := by
  rw [← bind_pure_comp, ← bind_pure_comp]
  exact bind inner (fun a => pure (h a)) (Nat.le_refl _)

theorem ite {c : Prop} [Decidable c] {yes no yes' no' : Rule α}
    (holds : Settles bound taken yes yes') (fails : Settles bound taken no no') :
    Settles bound taken (if c then yes else no) (if c then yes' else no') := by
  split
  · exact holds
  · exact fails

theorem looking (see : State → α) (h : ∀ a, Settles bound taken (f a) (g a)) :
    Settles bound taken ((do return see (← get)) >>= f) ((do return see (← get)) >>= g) :=
  fun s room =>
    let ⟨same, advances⟩ := h (see s) s room
    ⟨same, advances⟩

theorem seeing (k : Kind) {f g : Bool → Rule β} (h : ∀ b, Settles bound taken (f b) (g b)) :
    Settles bound taken (sees k >>= f) (sees k >>= g) :=
  looking (Reader.check k) h

theorem ending {f g : Bool → Rule β} (h : ∀ b, Settles bound taken (f b) (g b)) :
    Settles bound taken (atEnd >>= f) (atEnd >>= g) :=
  looking (fun s => s.rest.isEmpty) h

theorem numbering {f g : NodeId → Rule β} (h : ∀ id, Settles bound taken (f id) (g id)) :
    Settles bound taken (freshId >>= f) (freshId >>= g) :=
  fun s room =>
    let ⟨same, advances⟩ := h s.nextId { s with nextId := s.nextId + 1 } room
    ⟨same, advances⟩

theorem noting (place : Token) (cause : SyntaxFault) {f g : Unit → Rule β}
    (h : Settles bound taken (f ()) (g ())) :
    Settles bound taken (note place cause >>= f) (note place cause >>= g) :=
  fun s room =>
    let ⟨same, advances⟩ := h { s with noted := s.noted ++ [.grammatical place cause] } room
    ⟨same, advances⟩

theorem notingHere (cause : SyntaxFault) {f g : Unit → Rule β}
    (h : Settles bound taken (f ()) (g ())) :
    Settles bound taken (noteHere cause >>= f) (noteHere cause >>= g) :=
  fun s room =>
    let ⟨same, advances⟩ := h { s with noted := s.noted ++ [.grammatical s.peek cause] } room
    ⟨same, advances⟩

/-- A token that is taken counts. -/
theorem taking {s : State} {t : Token} {us : List Token} {q q' : Rule α}
    (read : s.rest = t :: us) (room : s.rest.length < bound)
    (h : Settles (bound - 1) (taken - 1) q q') :
    q { s with rest := us } = q' { s with rest := us } ∧
      Advances taken s (q { s with rest := us }) := by
  have moved : us.length + 1 = s.rest.length := by rw [read, List.length_cons]
  obtain ⟨same, advances⟩ := h { s with rest := us } (show us.length < bound - 1 by omega)
  exact ⟨same, advances.from (Nat.le_of_eq moved) (by omega)⟩

theorem accepting {kinds : List Kind} {f g : Option Token → Rule β}
    (yes : ∀ t, t.kind ∈ kinds → Settles (bound - 1) (taken - 1) (f (some t)) (g (some t)))
    (no : Settles bound taken (f .none) (g .none)) :
    Settles bound taken (acceptAny? kinds >>= f) (acceptAny? kinds >>= g) := by
  intro s room
  rcases stops_or_starts kinds s.rest with stops | ⟨t, us, read, mem⟩
  · have declined := acceptAny?_of_stops stops
    obtain ⟨same, advances⟩ := no s room
    exact ⟨by rw [bind_of_ok declined, bind_of_ok declined, same], by rwa [bind_of_ok declined]⟩
  · have accepted := (acceptAny?_cons kinds t s us read).trans (if_pos mem)
    obtain ⟨same, advances⟩ := taking read room (yes t mem)
    exact ⟨by rw [bind_of_ok accepted, bind_of_ok accepted, same], by rwa [bind_of_ok accepted]⟩

theorem expecting {k : Kind} {cause : SyntaxFault} {f g : Token → Rule β}
    (h : ∀ t, t.kind = k → Settles (bound - 1) (taken - 1) (f t) (g t)) :
    Settles bound taken (expect k cause >>= f) (expect k cause >>= g) := by
  rw [expect, accept?, bind_assoc, bind_assoc]
  refine accepting (fun t mem => ?_) ?_
  · simpa only [pure_bind] using h t (by simpa using mem)
  · rw [fail_bind, fail_bind]
    exact fail cause

theorem expect (k : Kind) (cause : SyntaxFault) :
    Settles bound 1 (Grammar.expect k cause) (Grammar.expect k cause) := by
  rw [← bind_pure (Grammar.expect k cause)]
  exact expecting fun t _ => pure t

end Settles

/-! ### Lists -/

theorem settles_commaSeparated {α : Type} {item item' : Rule α} {bound : Nat}
    (h : Settles bound 1 item item') (excess : SyntaxFault) {fuel fuel' : Nat}
    (enough : bound ≤ fuel) (enough' : bound ≤ fuel') (count : Nat) :
    Settles bound 1 (commaSeparated item excess count fuel)
      (commaSeparated item' excess count fuel') := by
  induction bound generalizing fuel fuel' count with
  | zero => exact .none
  | succ bound ih =>
    obtain ⟨fuel, rfl⟩ := Nat.exists_eq_add_one_of_ne_zero (n := fuel) (by omega)
    obtain ⟨fuel', rfl⟩ := Nat.exists_eq_add_one_of_ne_zero (n := fuel') (by omega)
    have shorter := h.mono (Nat.le_succ bound) (Nat.le_refl 1)
    have others : ∀ first, Settles bound 0
        (do
          if (← accept? (.symbol .comma)).isSome then
            return first :: (← commaSeparated item excess (count + 1) fuel)
          else return [first])
        (do
          if (← accept? (.symbol .comma)).isSome then
            return first :: (← commaSeparated item' excess (count + 1) fuel')
          else return [first]) := fun first =>
      .accepting
        (fun comma _ => ((ih shorter (by omega) (by omega) (count + 1)).bind
          (fun as => .pure (first :: as)) (Nat.le_refl _)).mono (Nat.sub_le _ _) (Nat.zero_le _))
        (.pure [first])
    have one := h.bind others (Nat.le_refl _)
    exact .ite (.notingHere excess one) one

theorem settles_listed {α : Type} {item item' : Rule α} {bound : Nat}
    (h : Settles bound 1 item item') (excess : SyntaxFault) {fuel fuel' : Nat}
    (enough : bound ≤ fuel) (enough' : bound ≤ fuel') :
    Settles bound 0 (listed item excess fuel) (listed item' excess fuel') :=
  .seeing _ fun _ => .ite (.pure [])
    ((settles_commaSeparated h excess enough enough' 0).mono (Nat.le_refl _) (Nat.zero_le _))

/-! ### From primaries to assignments -/

section Nested

variable {nested nested' : Rule Expr} {bound : Nat} (h : Settles bound 1 nested nested')

include h

theorem settles_primary : Settles (bound + 1) 1 (primary nested) (primary nested') := by
  -- What follows the first token needs one token less.
  have after : ∀ t : Token, (primaryAfter nested t = none ∧ primaryAfter nested' t = none) ∨
      ∃ q q', primaryAfter nested t = some q ∧ primaryAfter nested' t = some q' ∧
        Settles bound 0 q q' := by
    intro t
    unfold primaryAfter
    split
    · exact .inr ⟨_, _, rfl, rfl, .expecting fun _ _ => .expecting fun _ _ =>
        .numbering fun _ => .pure _⟩
    · exact .inr ⟨_, _, rfl, rfl, .numbering fun _ => .pure _⟩
    · exact .inr ⟨_, _, rfl, rfl, .numbering fun _ => .pure _⟩
    · exact .inr ⟨_, _, rfl, rfl, h.bind (n := 0)
        (fun _ => .expecting fun _ _ => .pure _) (Nat.zero_le _)⟩
    · cases Ebnf.literalOf? t.kind with
      | none => exact .inl ⟨rfl, rfl⟩
      | some l => exact .inr ⟨_, _, rfl, rfl, .pure _⟩
  intro s room
  cases read : s.rest with
  | nil =>
    have failed := primary_nil nested s read
    refine ⟨by rw [failed, primary_nil nested' s read], ?_⟩
    rw [failed]
    exact (Settles.fail .expectExpression s room).advances
  | cons t us =>
    have starts := primary_cons nested t s us read
    have starts' := primary_cons nested' t s us read
    rcases after t with ⟨never, never'⟩ | ⟨q, q', found, found', settles⟩
    · rw [never] at starts
      rw [never'] at starts'
      refine ⟨starts.trans starts'.symm, ?_⟩
      rw [starts]
      exact (Settles.fail .expectExpression s room).advances
    · rw [found] at starts
      rw [found'] at starts'
      obtain ⟨same, advances⟩ : _ ∧ Advances 1 s _ := Settles.taking read room settles
      exact ⟨starts.trans (same.trans starts'.symm), starts ▸ advances⟩

theorem settles_suffixes {less fuel fuel' : Nat} (within : less ≤ bound + 1)
    (enough : less ≤ fuel) (enough' : less ≤ fuel') (e : Expr) :
    Settles less 0 (suffixes nested fuel e) (suffixes nested' fuel' e) := by
  induction less generalizing fuel fuel' e with
  | zero => exact .none
  | succ less ih =>
    obtain ⟨fuel, rfl⟩ := Nat.exists_eq_add_one_of_ne_zero (n := fuel) (by omega)
    obtain ⟨fuel', rfl⟩ := Nat.exists_eq_add_one_of_ne_zero (n := fuel') (by omega)
    have again : ∀ e, Settles less 0 (suffixes nested fuel e) (suffixes nested' fuel' e) :=
      fun e => ih (by omega) (by omega) (by omega) e
    have arguments : Settles less 0 (listed nested .tooManyArguments (fuel + 1))
        (listed nested' .tooManyArguments (fuel' + 1)) :=
      settles_listed (h.mono (by omega) (Nat.le_refl 1)) _ (by omega) (by omega)
    refine Settles.accepting (fun _ _ => ?_) (Settles.accepting (fun _ _ => ?_) (.pure e))
    · exact arguments.bind (n := 0) (fun arguments => .expecting fun paren _ =>
        (again _).mono (by omega) (Nat.le_refl _)) (Nat.zero_le _)
    · exact .expecting fun name _ => (again _).mono (by omega) (Nat.le_refl _)

theorem settles_unary {less fuel fuel' : Nat} (within : less ≤ bound + 1)
    (enough : less ≤ fuel) (enough' : less ≤ fuel') :
    Settles less 1 (unary nested fuel) (unary nested' fuel') := by
  induction less generalizing fuel fuel' with
  | zero => exact .none
  | succ less ih =>
    obtain ⟨fuel, rfl⟩ := Nat.exists_eq_add_one_of_ne_zero (n := fuel) (by omega)
    obtain ⟨fuel', rfl⟩ := Nat.exists_eq_add_one_of_ne_zero (n := fuel') (by omega)
    refine Settles.accepting (fun operator _ => ?_) ?_
    · exact (ih (by omega) (by omega) (by omega)).bind (fun _ => .pure _) (Nat.zero_le _)
    · exact ((settles_primary h).mono within (Nat.le_refl 1)).bind
        (fun e => settles_suffixes h (by omega) (by omega) (by omega) e) (Nat.le_refl _)

end Nested

theorem settles_chain {operand operand' : Rule Expr} {bound : Nat}
    (h : Settles bound 1 operand operand') (level : Level) {fuel fuel' : Nat}
    (enough : bound ≤ fuel) (enough' : bound ≤ fuel') (left : Expr) :
    Settles bound 0 (chain level operand fuel left) (chain level operand' fuel' left) := by
  induction bound generalizing fuel fuel' left with
  | zero => exact .none
  | succ bound ih =>
    obtain ⟨fuel, rfl⟩ := Nat.exists_eq_add_one_of_ne_zero (n := fuel) (by omega)
    obtain ⟨fuel', rfl⟩ := Nat.exists_eq_add_one_of_ne_zero (n := fuel') (by omega)
    have shorter := h.mono (Nat.le_succ bound) (Nat.le_refl 1)
    refine Settles.accepting (fun operator _ => ?_) (.pure left)
    exact shorter.bind (fun right => (ih shorter (by omega) (by omega) _).mono (Nat.sub_le _ _)
      (Nat.le_refl _)) (Nat.zero_le _)

theorem settles_binary {operand operand' : Rule Expr} {bound : Nat}
    (h : Settles bound 1 operand operand') {fuel fuel' : Nat} (enough : bound ≤ fuel)
    (enough' : bound ≤ fuel') (ls : List Level) :
    Settles bound 1 (binary operand fuel ls) (binary operand' fuel' ls) := by
  induction ls with
  | nil => exact h
  | cons level tighter ih =>
    exact ih.bind (fun left => (settles_chain ih level enough enough' left).mono (Nat.sub_le _ _)
      (Nat.le_refl _)) (Nat.le_refl _)

theorem settles_assignment {nested nested' : Rule Expr} {bound : Nat}
    (h : Settles bound 1 nested nested') {fuel fuel' : Nat} (enough : bound + 1 ≤ fuel)
    (enough' : bound + 1 ≤ fuel') :
    Settles (bound + 1) 1 (assignment nested fuel) (assignment nested' fuel') := by
  have operand := settles_unary h (Nat.le_refl (bound + 1)) enough enough'
  have whole := settles_binary operand enough enough' levels
  refine whole.bind (n := 0) (fun target => ?_) (Nat.le_refl 1)
  refine Settles.accepting (fun equals _ => ?_) (.pure target)
  refine (h.mono (by omega) (Nat.le_refl 1)).bind (n := 0) (fun value => ?_) (Nat.zero_le _)
  split
  · exact .numbering fun _ => .pure _
  · exact .pure _
  · exact .noting equals _ (.pure _)

/-- A depth of one more than the number of tokens settles what an expression is read as. -/
theorem settles_expression {bound fuel fuel' : Nat} (enough : bound ≤ fuel)
    (enough' : bound ≤ fuel') : Settles bound 1 (expression fuel) (expression fuel') := by
  induction bound generalizing fuel fuel' with
  | zero => exact .none
  | succ bound ih =>
    obtain ⟨fuel, rfl⟩ := Nat.exists_eq_add_one_of_ne_zero (n := fuel) (by omega)
    obtain ⟨fuel', rfl⟩ := Nat.exists_eq_add_one_of_ne_zero (n := fuel') (by omega)
    exact settles_assignment (ih (by omega) (by omega)) (by omega) (by omega)

end Lox.Grammar
