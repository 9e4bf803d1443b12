import Lox.Proofs.Grammar.Recovery

/-!
# Rules inside a sentence

A sentence is a list of tokens that ends in its only semicolon, with no brace and no `for` before
it. What a rule does in it depends on nothing behind it: of two parses that stand before the same
sentence, each with tokens of its own behind it and faults of its own noted before, both go on to
the same place in the sentence and note the same faults, or both give up there with the same fault
(`isolated_expression`).
-/

namespace Lox.Grammar

open EStateM (Result)

/-! ### Sentences -/

/-- The kinds of token that end a statement or let one stand inside. -/
def statementMarks : List Kind :=
  [.symbol .semicolon, .symbol .leftBrace, .symbol .rightBrace, .keyword .for]

inductive Sentence : List Token → Prop
  | stop {t : Token} (isStop : t.kind = .symbol .semicolon) : Sentence [t]
  | cons {t : Token} {ts : List Token} (plain : t.kind ∉ statementMarks) (rest : Sentence ts) :
      Sentence (t :: ts)

theorem goesOn_of_plain {k : Kind} (plain : k ∉ statementMarks) : k ≠ .symbol .semicolon :=
  fun isStop => plain (isStop ▸ by decide)

theorem sentence_append {body : List Token} {stop : Token}
    (plain : ∀ t ∈ body, t.kind ∉ statementMarks) (isStop : stop.kind = .symbol .semicolon) :
    Sentence (body ++ [stop]) := by
  induction body with
  | nil => exact .stop isStop
  | cons t ts ih =>
    obtain ⟨first, others⟩ := List.forall_mem_cons.1 plain
    exact .cons first (ih others)

theorem Sentence.starts {ts : List Token} (h : Sentence ts) : ∃ t us, ts = t :: us := by
  cases h with
  | stop => exact ⟨_, _, rfl⟩
  | cons => exact ⟨_, _, rfl⟩

/-- A token of another kind than the semicolon does not end the sentence that it starts. -/
theorem Sentence.rest {t : Token} {ts : List Token} (h : Sentence (t :: ts))
    (other : t.kind ≠ .symbol .semicolon) : t.kind ∉ statementMarks ∧ Sentence ts := by
  cases h with
  | stop isStop => exact absurd isStop other
  | cons plain rest => exact ⟨plain, rest⟩

theorem Sentence.last {t : Token} {ts : List Token} (h : Sentence (t :: ts))
    (isStop : t.kind = .symbol .semicolon) : ts = [] := by
  cases h with
  | stop => rfl
  | cons plain => exact absurd (isStop ▸ by decide) plain

/-! ### Two parses before the same tokens -/

/-- What is around the tokens: those behind them, and the faults noted before them. -/
structure Setting where
  behind : List Token
  before : List Diagnostic

/-- Two parses, each in its setting, stand before the same tokens and have noted the same faults
since the tokens began. -/
structure Beside (A A' : Setting) (ts : List Token) (s s' : State) : Prop where
  rest : s.rest = ts ++ A.behind
  rest' : s'.rest = ts ++ A'.behind
  noted : ∃ new, s.noted = A.before ++ new ∧ s'.noted = A'.before ++ new

variable {A A' : Setting}

theorem Beside.moved {ts : List Token} {s s' : State} (h : Beside A A' ts s s')
    (us : List Token) :
    Beside A A' us { s with rest := us ++ A.behind } { s' with rest := us ++ A'.behind } :=
  ⟨rfl, rfl, h.noted⟩

theorem Beside.noting {ts : List Token} {s s' : State} (h : Beside A A' ts s s')
    (d : Diagnostic) :
    Beside A A' ts { s with noted := s.noted ++ [d] } { s' with noted := s'.noted ++ [d] } := by
  obtain ⟨new, noted, noted'⟩ := h.noted
  refine ⟨h.rest, h.rest', new ++ [d], ?_, ?_⟩
  · show s.noted ++ [d] = _
    rw [noted, List.append_assoc]
  · show s'.noted ++ [d] = _
    rw [noted', List.append_assoc]

theorem Beside.peek {ts : List Token} {s s' : State} (h : Beside A A' ts s s')
    (inside : Sentence ts) : s.peek = s'.peek := by
  obtain ⟨t, us, rfl⟩ := inside.starts
  rw [State.peek, State.peek, h.rest, h.rest']
  rfl

/-- Both rules succeeded at the same place, or gave up at the same place inside the sentence. What
they yield goes together in a way that may depend on what they left of at most `size` tokens. -/
inductive BesideResult {α β : Type} (A A' : Setting) (Q : List Token → α → β → Prop) (size : Nat) :
    Result Failure State α → Result Failure State β → Prop
  | ok {ts : List Token} {a : α} {b : β} {s s' : State} (state : Beside A A' ts s s')
      (short : ts.length ≤ size) (holds : Q ts a b) : BesideResult A A' Q size (.ok a s) (.ok b s')
  | fault {ts : List Token} {d : Diagnostic} {s s' : State} (state : Beside A A' ts s s')
      (short : ts.length ≤ size) (inside : Sentence ts) :
      BesideResult A A' Q size (.error (.fault d) s) (.error (.fault d) s')

theorem BesideResult.mono {α β : Type} {Q : List Token → α → β → Prop} {size more : Nat}
    {r : Result Failure State α} {r' : Result Failure State β} (h : BesideResult A A' Q size r r')
    (le : size ≤ more) : BesideResult A A' Q more r r' := by
  cases h with
  | ok state short holds => exact .ok state (Nat.le_trans short le) holds
  | fault state short inside => exact .fault state (Nat.le_trans short le) inside

/-- Before a sentence of at most `size` tokens, two rules do the same. -/
def Isolated {α β : Type} (A A' : Setting) (size : Nat) (x : Rule α) (y : Rule β)
    (Q : List Token → α → β → Prop) : Prop :=
  ∀ ts s s', Sentence ts → ts.length ≤ size → Beside A A' ts s s' →
    BesideResult A A' Q ts.length (x s) (y s')

/-- The rules stopped before the end of the sentence. -/
def Inside {α β : Type} (R : α → β → Prop) (ts : List Token) (a : α) (b : β) : Prop :=
  Sentence ts ∧ R a b

/-- The rules took the whole sentence. -/
def Past {α β : Type} (ts : List Token) (_ : α) (_ : β) : Prop := ts = []

/-- Whatever the rules yield. -/
def Any {α β : Type} (_ : α) (_ : β) : Prop := True

namespace Isolated

variable {α β γ δ : Type} {size : Nat} {x : Rule α} {y : Rule β} {f : α → Rule γ} {g : β → Rule δ}
  {R : α → β → Prop} {P : List Token → α → β → Prop} {Q : List Token → γ → δ → Prop}

theorem mono {less : Nat} (h : Isolated A A' size x y P) (le : less ≤ size) :
    Isolated A A' less x y P :=
  fun ts s s' inside fits => h ts s s' inside (Nat.le_trans fits le)

theorem zero : Isolated A A' 0 x y P := by
  intro ts _ _ inside fits
  obtain ⟨t, us, rfl⟩ := inside.starts
  exact absurd fits (Nat.not_succ_le_zero _)

theorem pure {a : α} {b : β} (holds : R a b) :
    Isolated A A' size (Pure.pure a : Rule α) (Pure.pure b : Rule β) (Inside R) :=
  fun _ _ _ inside _ state => .ok state (Nat.le_refl _) ⟨inside, holds⟩

theorem fail (cause : SyntaxFault) :
    Isolated A A' size (Grammar.fail cause : Rule α) (Grammar.fail cause : Rule β) P := by
  intro ts s s' inside _ state
  show BesideResult A A' P ts.length (.error (.fault (.grammatical s.peek cause)) s)
    (.error (.fault (.grammatical s'.peek cause)) s')
  rw [state.peek inside]
  exact .fault state (Nat.le_refl _) inside

/-- What follows may stand behind the sentence. -/
theorem after (first : Isolated A A' size x y P)
    (next : ∀ {ts a b s s'}, P ts a b → ts.length ≤ size → Beside A A' ts s s' →
      BesideResult A A' Q ts.length (f a s) (g b s')) :
    Isolated A A' size (x >>= f) (y >>= g) Q := by
  intro ts s s' inside fits state
  have start := first ts s s' inside fits state
  show BesideResult A A' Q ts.length (EStateM.bind x f s) (EStateM.bind y g s')
  unfold EStateM.bind
  generalize x s = r at start ⊢
  generalize y s' = r' at start ⊢
  cases start with
  | ok state short holds => exact (next holds (Nat.le_trans short fits) state).mono short
  | fault state short inside => exact .fault state short inside

theorem bind (first : Isolated A A' size x y (Inside R))
    (next : ∀ a b, R a b → Isolated A A' size (f a) (g b) Q) :
    Isolated A A' size (x >>= f) (y >>= g) Q :=
  first.after fun holds fits state => next _ _ holds.2 _ _ _ holds.1 fits state

theorem map {f : α → γ} {g : β → δ} (h : Isolated A A' size x y P)
    (sub : ∀ ts a b, P ts a b → Q ts (f a) (g b)) : Isolated A A' size (f <$> x) (g <$> y) Q := by
  rw [← bind_pure_comp, ← bind_pure_comp]
  exact h.after fun holds _ state => .ok state (Nat.le_refl _) (sub _ _ _ holds)

theorem ite {c : Prop} [Decidable c] {yes no : Rule γ} {yes' no' : Rule δ}
    (h : Isolated A A' size yes yes' Q) (k : Isolated A A' size no no' Q) :
    Isolated A A' size (if c then yes else no) (if c then yes' else no') Q := by
  split
  · exact h
  · exact k

theorem sees (k : Kind) {f : Bool → Rule γ} {g : Bool → Rule δ}
    (h : ∀ b, Isolated A A' size (f b) (g b) Q) :
    Isolated A A' size (Grammar.sees k >>= f) (Grammar.sees k >>= g) Q := by
  intro ts s s' inside fits state
  have same : Reader.check k s = Reader.check k s' := by
    obtain ⟨t, us, rfl⟩ := inside.starts
    rw [check_eq, check_eq, state.rest, state.rest']
    rfl
  show BesideResult A A' Q ts.length (f (Reader.check k s) s) (g (Reader.check k s') s')
  rw [same]
  exact h _ ts s s' inside fits state

/-- Taking a token that is not the semicolon leaves a shorter sentence. -/
theorem accepting {kinds : List Kind} {f : Option Token → Rule γ} {g : Option Token → Rule δ}
    (goesOn : Kind.symbol .semicolon ∉ kinds)
    (yes : ∀ t, t.kind ∉ statementMarks → t.kind ∈ kinds →
      Isolated A A' (size - 1) (f (some t)) (g (some t)) Q)
    (no : Isolated A A' size (f none) (g none) Q) :
    Isolated A A' size (acceptAny? kinds >>= f) (acceptAny? kinds >>= g) Q := by
  intro ts s s' inside fits state
  obtain ⟨t, us, rfl⟩ := inside.starts
  have read := acceptAny?_cons kinds t s (us ++ A.behind) state.rest
  have read' := acceptAny?_cons kinds t s' (us ++ A'.behind) state.rest'
  by_cases mem : t.kind ∈ kinds
  · obtain ⟨plain, rest⟩ := inside.rest fun isStop => goesOn (isStop ▸ mem)
    rw [bind_of_ok (read.trans (if_pos mem)), bind_of_ok (read'.trans (if_pos mem))]
    have fits : us.length ≤ size - 1 := by
      rw [List.length_cons] at fits
      omega
    exact (yes t plain mem us _ _ rest fits (state.moved us)).mono (Nat.le_succ _)
  · rw [bind_of_ok (read.trans (if_neg mem)), bind_of_ok (read'.trans (if_neg mem))]
    exact no _ s s' inside fits state

theorem expecting {k : Kind} {cause : SyntaxFault} {f : Token → Rule γ} {g : Token → Rule δ}
    (other : k ≠ .symbol .semicolon)
    (h : ∀ t, t.kind ∉ statementMarks → t.kind = k → Isolated A A' (size - 1) (f t) (g t) Q) :
    Isolated A A' size (expect k cause >>= f) (expect k cause >>= g) Q := by
  rw [expect, accept?, bind_assoc, bind_assoc]
  refine accepting (fun mem => other (List.mem_singleton.1 mem).symm) (fun t plain mem => ?_) ?_
  · simpa only [pure_bind] using h t plain (List.mem_singleton.1 mem)
  · rw [fail_bind, fail_bind]
    exact fail cause

/-- The semicolon is the end of the sentence. -/
theorem finishing {cause : SyntaxFault} {a : γ} {b : δ} :
    Isolated A A' size (expect (.symbol .semicolon) cause >>= fun _ => Pure.pure a)
      (expect (.symbol .semicolon) cause >>= fun _ => Pure.pure b) Past := by
  intro ts s s' inside fits state
  obtain ⟨t, us, rfl⟩ := inside.starts
  have read := acceptAny?_cons [.symbol .semicolon] t s (us ++ A.behind) state.rest
  have read' := acceptAny?_cons [.symbol .semicolon] t s' (us ++ A'.behind) state.rest'
  rw [expect, accept?, bind_assoc, bind_assoc]
  by_cases isStop : t.kind = .symbol .semicolon
  · have mem : t.kind ∈ [Kind.symbol .semicolon] := by simpa using isStop
    rw [bind_of_ok (read.trans (if_pos mem)), bind_of_ok (read'.trans (if_pos mem))]
    exact .ok (state.moved us) (Nat.le_succ us.length) (inside.last isStop)
  · have mem : t.kind ∉ [Kind.symbol .semicolon] := by simpa using isStop
    rw [bind_of_ok (read.trans (if_neg mem)), bind_of_ok (read'.trans (if_neg mem))]
    exact fail cause _ s s' inside fits state

theorem noting {place : Token} {cause : SyntaxFault} {f : Unit → Rule γ} {g : Unit → Rule δ}
    (h : Isolated A A' size (f ()) (g ()) Q) :
    Isolated A A' size (note place cause >>= f) (note place cause >>= g) Q :=
  fun _ _ _ inside fits state => h _ _ _ inside fits (state.noting _)

theorem notingHere {cause : SyntaxFault} {f : Unit → Rule γ} {g : Unit → Rule δ}
    (h : Isolated A A' size (f ()) (g ()) Q) :
    Isolated A A' size (noteHere cause >>= f) (noteHere cause >>= g) Q := by
  intro ts s s' inside fits state
  show BesideResult A A' Q ts.length ((note s.peek cause >>= f) s) ((note s'.peek cause >>= g) s')
  rw [state.peek inside]
  exact noting h ts s s' inside fits state

theorem numbering {f : NodeId → Rule γ} {g : NodeId → Rule δ}
    (h : ∀ i j, Isolated A A' size (f i) (g j) Q) :
    Isolated A A' size (freshId >>= f) (freshId >>= g) Q :=
  fun _ s s' inside fits state => h s.nextId s'.nextId _ _ _ inside fits { state with }

end Isolated

/-! ### Lists -/

theorem isolated_commaSeparated {α β : Type} {item : Rule α} {item' : Rule β} {R : α → β → Prop}
    (excess : SyntaxFault) {size : Nat} (h : Isolated A A' size item item' (Inside R))
    {count fuel fuel' : Nat} (room : size ≤ fuel) (room' : size ≤ fuel') :
    Isolated A A' size (commaSeparated item excess count fuel)
      (commaSeparated item' excess count fuel') (Inside Any) := by
  induction size generalizing count fuel fuel' with
  | zero => exact Isolated.zero
  | succ size ih =>
    obtain ⟨fuel, rfl⟩ := Nat.exists_eq_add_one_of_ne_zero (Nat.ne_zero_of_lt room)
    obtain ⟨fuel', rfl⟩ := Nat.exists_eq_add_one_of_ne_zero (Nat.ne_zero_of_lt room')
    have items : Isolated A A' (size + 1)
        (item >>= fun first => accept? (.symbol .comma) >>= fun o => if o.isSome = true then
          (do return first :: (← commaSeparated item excess (count + 1) fuel)) else pure [first])
        (item' >>= fun first => accept? (.symbol .comma) >>= fun o => if o.isSome = true then
          (do return first :: (← commaSeparated item' excess (count + 1) fuel')) else pure [first])
        (Inside Any) := by
      refine h.bind fun _ _ _ => Isolated.accepting (by decide) (fun _ _ _ => ?_)
        (Isolated.pure trivial)
      have others : Isolated A A' size (commaSeparated item excess (count + 1) fuel)
          (commaSeparated item' excess (count + 1) fuel') (Inside Any) :=
        ih (h.mono (Nat.le_succ size)) (by omega) (by omega)
      exact others.bind fun _ _ _ => Isolated.pure trivial
    exact Isolated.ite (Isolated.notingHere items) items

theorem isolated_listed {α β : Type} {item : Rule α} {item' : Rule β} {R : α → β → Prop}
    (excess : SyntaxFault) {size : Nat} (h : Isolated A A' size item item' (Inside R))
    {fuel fuel' : Nat} (room : size ≤ fuel) (room' : size ≤ fuel') :
    Isolated A A' size (listed item excess fuel) (listed item' excess fuel') (Inside Any) :=
  Isolated.sees _ fun _ =>
    Isolated.ite (Isolated.pure trivial) (isolated_commaSeparated excess h room room')

/-! ### Expressions -/

/-- May stand left of an equals sign. -/
def assignable : Expr → Bool
  | .variable _ _ | .get _ _ => true
  | _ => false

/-- Both expressions are variables, both are properties, or nothing can be assigned to them. -/
inductive Alike : Expr → Expr → Prop
  | variable {id id' : NodeId} {name name' : Token} : Alike (.variable id name) (.variable id' name')
  | get {e e' : Expr} {name name' : Token} : Alike (.get e name) (.get e' name')
  | other {e e' : Expr} (fixed : assignable e = false) (fixed' : assignable e' = false) : Alike e e'

/-- What comes after the value, once the equals sign is read. -/
def assigned (equals : Token) (value : Expr) : Expr → Rule Expr
  | .variable _ name => do return .assign (← freshId) name value
  | .get object name => return .set object name value
  | other => do
    note equals .invalidAssignmentTarget
    return other

theorem assigned_other {target : Expr} (fixed : assignable target = false) (equals : Token)
    (value : Expr) : assigned equals value target =
      note equals .invalidAssignmentTarget >>= fun _ => pure target := by
  cases target <;> first | rfl | cases fixed

theorem isolated_assigned {size : Nat} (equals : Token) (value value' : Expr)
    {target target' : Expr} (same : Alike target target') :
    Isolated A A' size (assigned equals value target) (assigned equals value' target')
      (Inside Alike) := by
  cases same with
  | «variable» => exact Isolated.numbering fun _ _ => Isolated.pure (.other rfl rfl)
  | get => exact Isolated.pure (.other rfl rfl)
  | other fixed fixed' =>
    rw [assigned_other fixed, assigned_other fixed']
    exact Isolated.noting (Isolated.pure (.other fixed fixed'))

theorem isolated_primaryAfter {size : Nat} {nested nested' : Rule Expr} {R : Expr → Expr → Prop}
    (h : Isolated A A' size nested nested' (Inside R)) (t : Token) :
    Option.Rel (fun x y => Isolated A A' size x y (Inside Alike)) (primaryAfter nested t)
      (primaryAfter nested' t) := by
  unfold primaryAfter
  split
  · exact .some <| Isolated.expecting (by decide) fun _ _ _ => Isolated.expecting (by decide)
      fun _ _ _ => Isolated.numbering fun _ _ => Isolated.pure (.other rfl rfl)
  · exact .some <| Isolated.numbering fun _ _ => Isolated.pure (.other rfl rfl)
  · exact .some <| Isolated.numbering fun _ _ => Isolated.pure .variable
  · exact .some <| h.bind fun _ _ _ => Isolated.expecting (by decide) fun _ _ _ =>
      Isolated.pure (.other rfl rfl)
  · cases Ebnf.literalOf? t.kind with
    | none => exact .none
    | some l => exact .some (Isolated.pure (.other rfl rfl))

theorem primaryAfter_semicolon (nested : Rule Expr) {t : Token}
    (isStop : t.kind = .symbol .semicolon) : primaryAfter nested t = none := by
  rw [primaryAfter, isStop]
  rfl

section Nested

variable {size : Nat} {nested nested' : Rule Expr}
  (h : Isolated A A' size nested nested' (Inside Alike))

include h

theorem isolated_primary :
    Isolated A A' (size + 1) (primary nested) (primary nested') (Inside Alike) := by
  intro ts s s' inside fits state
  obtain ⟨t, us, rfl⟩ := inside.starts
  have refused : BesideResult A A' (Inside Alike) (t :: us).length
      ((fail .expectExpression : Rule Expr) s) ((fail .expectExpression : Rule Expr) s') :=
    Isolated.fail _ _ s s' inside fits state
  rw [primary_cons nested t s _ state.rest, primary_cons nested' t s' _ state.rest']
  by_cases isStop : t.kind = .symbol .semicolon
  · rw [primaryAfter_semicolon nested isStop, primaryAfter_semicolon nested' isStop]
    exact refused
  · have after := isolated_primaryAfter h t
    generalize primaryAfter nested t = x at after ⊢
    generalize primaryAfter nested' t = y at after ⊢
    cases after with
    | none => exact refused
    | some together =>
      have rest := (inside.rest isStop).2
      exact (together us _ _ rest (Nat.le_of_succ_le_succ fits) (state.moved us)).mono (Nat.le_succ _)

theorem isolated_suffixes {bound fuel fuel' : Nat} (le : bound ≤ size + 1) (room : bound ≤ fuel)
    (room' : bound ≤ fuel') {e e' : Expr} (same : Alike e e') :
    Isolated A A' bound (suffixes nested fuel e) (suffixes nested' fuel' e') (Inside Alike) := by
  induction bound generalizing fuel fuel' e e' with
  | zero => exact Isolated.zero
  | succ bound ih =>
    obtain ⟨fuel, rfl⟩ := Nat.exists_eq_add_one_of_ne_zero (Nat.ne_zero_of_lt room)
    obtain ⟨fuel', rfl⟩ := Nat.exists_eq_add_one_of_ne_zero (Nat.ne_zero_of_lt room')
    have more : ∀ {e e' : Expr}, Alike e e' →
        Isolated A A' bound (suffixes nested fuel e) (suffixes nested' fuel' e') (Inside Alike) :=
      ih (by omega) (by omega) (by omega)
    refine Isolated.accepting (by decide) (fun _ _ _ => ?_)
      (Isolated.accepting (by decide) (fun _ _ _ => ?_) (Isolated.pure same))
    · exact (isolated_listed _ (h.mono (by omega)) (by omega) (by omega)).bind fun _ _ _ =>
        Isolated.expecting (by decide) fun _ _ _ =>
          (more (.other rfl rfl)).mono (Nat.sub_le _ _)
    · exact Isolated.expecting (by decide) fun _ _ _ => (more .get).mono (Nat.sub_le _ _)

theorem isolated_unary {bound fuel fuel' : Nat} (le : bound ≤ size + 1) (room : bound ≤ fuel)
    (room' : bound ≤ fuel') :
    Isolated A A' bound (unary nested fuel) (unary nested' fuel') (Inside Alike) := by
  induction bound generalizing fuel fuel' with
  | zero => exact Isolated.zero
  | succ bound ih =>
    obtain ⟨fuel, rfl⟩ := Nat.exists_eq_add_one_of_ne_zero (Nat.ne_zero_of_lt room)
    obtain ⟨fuel', rfl⟩ := Nat.exists_eq_add_one_of_ne_zero (Nat.ne_zero_of_lt room')
    refine Isolated.accepting (by decide) (fun _ _ _ => ?_) ?_
    · exact (ih (by omega) (by omega) (by omega)).bind fun _ _ _ =>
        Isolated.pure (.other rfl rfl)
    · exact ((isolated_primary h).mono le).bind fun _ _ same =>
        isolated_suffixes h le room room' same

omit h in
theorem isolated_chain {level : Level} (mem : level ∈ levels) {operand operand' : Rule Expr}
    {bound : Nat} (h : Isolated A A' bound operand operand' (Inside Alike)) {fuel fuel' : Nat}
    (room : bound ≤ fuel) (room' : bound ≤ fuel') {left left' : Expr} (same : Alike left left') :
    Isolated A A' bound (chain level operand fuel left) (chain level operand' fuel' left')
      (Inside Alike) := by
  induction bound generalizing fuel fuel' left left' with
  | zero => exact Isolated.zero
  | succ bound ih =>
    obtain ⟨fuel, rfl⟩ := Nat.exists_eq_add_one_of_ne_zero (Nat.ne_zero_of_lt room)
    obtain ⟨fuel', rfl⟩ := Nat.exists_eq_add_one_of_ne_zero (Nat.ne_zero_of_lt room')
    have inner := h.mono (Nat.le_succ bound)
    have operators : ∀ l ∈ levels, Kind.symbol .semicolon ∉ l.operators := by decide
    have nodes : ∀ l ∈ levels, ∀ e t e', assignable (l.node e t e') = false := by
      simp [levels, assignable]
    refine Isolated.accepting (operators level mem) (fun operator _ _ => ?_) (Isolated.pure same)
    refine inner.bind fun right right' _ => ih inner (by omega) (by omega) ?_
    exact .other (nodes level mem _ _ _) (nodes level mem _ _ _)

omit h in
theorem isolated_binary {operand operand' : Rule Expr} {bound : Nat}
    (h : Isolated A A' bound operand operand' (Inside Alike)) {fuel fuel' : Nat}
    (room : bound ≤ fuel) (room' : bound ≤ fuel') (ls : List Level) (sub : ∀ l ∈ ls, l ∈ levels) :
    Isolated A A' bound (binary operand fuel ls) (binary operand' fuel' ls) (Inside Alike) := by
  induction ls with
  | nil => exact h
  | cons level tighter ih =>
    obtain ⟨mem, others⟩ := List.forall_mem_cons.1 sub
    exact (ih others).bind fun _ _ left => isolated_chain mem (ih others) room room' left

theorem isolated_assignment {fuel fuel' : Nat} (room : size + 1 ≤ fuel) (room' : size + 1 ≤ fuel') :
    Isolated A A' (size + 1) (assignment nested fuel) (assignment nested' fuel')
      (Inside Alike) := by
  have operand := isolated_unary h (Nat.le_refl _) room room'
  refine (isolated_binary operand room room' levels fun _ mem => mem).bind fun target target' same =>
    Isolated.accepting (by decide) (fun equals _ _ => ?_) (Isolated.pure same)
  exact h.bind fun value value' _ => isolated_assigned equals value value' same

end Nested

/-- An expression in a sentence is read in the same way whatever is around the sentence. -/
theorem isolated_expression {size fuel fuel' : Nat} (room : size ≤ fuel) (room' : size ≤ fuel') :
    Isolated A A' size (expression fuel) (expression fuel') (Inside Alike) := by
  induction size generalizing fuel fuel' with
  | zero => exact Isolated.zero
  | succ size ih =>
    obtain ⟨fuel, rfl⟩ := Nat.exists_eq_add_one_of_ne_zero (Nat.ne_zero_of_lt room)
    obtain ⟨fuel', rfl⟩ := Nat.exists_eq_add_one_of_ne_zero (Nat.ne_zero_of_lt room')
    exact isolated_assignment (ih (by omega) (by omega)) room room'

end Lox.Grammar
