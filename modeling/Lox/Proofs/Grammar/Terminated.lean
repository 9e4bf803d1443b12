import Lox.Proofs.Grammar.Acceptance
import Lox.Proofs.Grammar.Isolation

/-!
# Expressions with a semicolon behind them

What is read as an expression to the end of the tokens is read in the same way with a semicolon
behind it: the same tree with the same numbers, whatever more fuel there is
(`expression_carries`). If neither `this` nor `super` is among the tokens, none is in the tree.
-/

namespace Lox

/-- The words that stand for the class around them. -/
def classWords : List Kind := [.keyword .this, .keyword .super]

mutual

/-- Neither `this` nor `super` is in the expression. -/
def Expr.Classless : Expr → Prop
  | .literal _ => True
  | .unary _ right => right.Classless
  | .binary left _ right => left.Classless ∧ right.Classless
  | .logical left _ right => left.Classless ∧ right.Classless
  | .group inner => inner.Classless
  | .variable _ _ => True
  | .assign _ _ value => value.Classless
  | .call callee _ arguments => callee.Classless ∧ Expr.ClasslessAll arguments
  | .get object _ => object.Classless
  | .set object _ value => object.Classless ∧ value.Classless
  | .this _ _ => False
  | .super _ _ _ => False

def Expr.ClasslessAll : List Expr → Prop
  | [] => True
  | e :: es => e.Classless ∧ Expr.ClasslessAll es

end

namespace Grammar

open EStateM (Result)

/-! ### Two parses of the same tokens -/

/-- The second parse stands before the same tokens with more behind them. The tokens that both have
are not about classes. -/
structure Ahead (more : List Token) (s s' : State) : Prop where
  rest : s'.rest = s.rest ++ more
  nextId : s'.nextId = s.nextId
  noted : s'.noted.length = s.noted.length
  classless : ∀ t ∈ s.rest, t.kind ∉ classWords

/-- If the first rule succeeds, the second one yields the same and goes as far. -/
def Carries {α : Type} (more : List Token) (x y : Rule α) (Q : α → Prop) : Prop :=
  ∀ s s' a t, Ahead more s s' → x s = .ok a t → Q a ∧ ∃ t', y s' = .ok a t' ∧ Ahead more t t'

variable {more : List Token}

theorem Ahead.moved {s s' : State} {t : Token} {us : List Token} (h : Ahead more s s')
    (read : s.rest = t :: us) :
    Ahead more { s with rest := us } { s' with rest := us ++ more } :=
  ⟨rfl, h.nextId, h.noted, (List.forall_mem_cons.1 (read ▸ h.classless)).2⟩

namespace Carries

variable {α β : Type} {x y : Rule α} {f g : α → Rule β} {P : α → Prop} {Q : β → Prop}

theorem pure {a : α} (holds : P a) : Carries more (Pure.pure a) (Pure.pure a) P := by
  intro s s' b t state run
  cases run
  exact ⟨holds, s', rfl, state⟩

theorem never (fails : ∀ s a t, x s ≠ .ok a t) : Carries more x y P :=
  fun s _ a t _ run => absurd run (fails s a t)

theorem throw (e : Failure) : Carries more (MonadExcept.throw e) y P := never fun _ _ _ => nofun

theorem fail (cause : SyntaxFault) : Carries more (Grammar.fail cause) y P :=
  never fun _ _ _ => nofun

theorem bind (first : Carries more x y P) (next : ∀ a, P a → Carries more (f a) (g a) Q) :
    Carries more (x >>= f) (y >>= g) Q := by
  intro s s' b t state run
  obtain ⟨a, m, read, run⟩ := bind_ok run
  obtain ⟨holds, m', read', state⟩ := first s s' a m state read
  rw [bind_of_ok read']
  exact next a holds m m' b t state run

theorem ite {c : Prop} [Decidable c] {yes no yes' no' : Rule β} (h : Carries more yes yes' Q)
    (k : Carries more no no' Q) :
    Carries more (if c then yes else no) (if c then yes' else no') Q := by
  split
  · exact h
  · exact k

/-- What stands behind the tokens is not accepted. -/
theorem accepting {kinds : List Kind} (stops : Stops kinds more) {f g : Option Token → Rule β}
    (yes : ∀ t, t.kind ∈ kinds → Carries more (f (some t)) (g (some t)) Q)
    (no : Carries more (f none) (g none) Q) :
    Carries more (acceptAny? kinds >>= f) (acceptAny? kinds >>= g) Q := by
  intro s s' b t state run
  cases read : s.rest with
  | nil =>
    have stops : Stops kinds s'.rest := by
      rw [state.rest, read]
      exact stops
    rw [bind_of_ok (acceptAny?_nil kinds s read)] at run
    rw [bind_of_ok (acceptAny?_of_stops stops)]
    exact no s s' b t state run
  | cons u us =>
    have read' : s'.rest = u :: (us ++ more) := by
      rw [state.rest, read]
      rfl
    by_cases mem : u.kind ∈ kinds
    · rw [bind_of_ok ((acceptAny?_cons kinds u s us read).trans (if_pos mem))] at run
      rw [bind_of_ok ((acceptAny?_cons kinds u s' _ read').trans (if_pos mem))]
      exact yes u mem _ _ b t (state.moved read) run
    · rw [bind_of_ok ((acceptAny?_cons kinds u s us read).trans (if_neg mem))] at run
      rw [bind_of_ok ((acceptAny?_cons kinds u s' _ read').trans (if_neg mem))]
      exact no s s' b t state run

theorem expecting {k : Kind} {cause : SyntaxFault} (stops : Stops [k] more) {f g : Token → Rule β}
    (h : ∀ t, Carries more (f t) (g t) Q) :
    Carries more (expect k cause >>= f) (expect k cause >>= g) Q := by
  rw [expect, accept?, bind_assoc, bind_assoc]
  refine accepting stops (fun t _ => ?_) ?_
  · simpa only [pure_bind] using h t
  · rw [fail_bind]
    exact fail cause

theorem sees {k : Kind} (stops : Stops [k] more) {f g : Bool → Rule β}
    (h : ∀ b, Carries more (f b) (g b) Q) :
    Carries more (Grammar.sees k >>= f) (Grammar.sees k >>= g) Q := by
  intro s s' b t state run
  have same : Reader.check k s = Reader.check k s' := by
    rw [check_eq, check_eq, state.rest]
    cases s.rest with
    | cons u us => rfl
    | nil =>
      cases more with
      | nil => rfl
      | cons u us =>
        have other : u.kind ≠ k := by simpa [Stops] using stops
        exact (beq_false_of_ne other).symm
  change f (Reader.check k s) s = _ at run
  show _ ∧ ∃ t', g (Reader.check k s') s' = _ ∧ _
  rw [← same]
  exact h _ s s' b t state run

theorem noting (place place' : Token) {cause : SyntaxFault} {f g : Unit → Rule β}
    (h : Carries more (f ()) (g ()) Q) :
    Carries more (note place cause >>= f) (note place' cause >>= g) Q := by
  intro s s' b t state run
  have noted : (s'.noted ++ [Diagnostic.grammatical place' cause]).length =
      (s.noted ++ [Diagnostic.grammatical place cause]).length := by
    simp [state.noted]
  exact h { s with noted := s.noted ++ [.grammatical place cause] }
    { s' with noted := s'.noted ++ [.grammatical place' cause] } b t
    ⟨state.rest, state.nextId, noted, state.classless⟩ run

theorem notingHere {cause : SyntaxFault} {f g : Unit → Rule β} (h : Carries more (f ()) (g ()) Q) :
    Carries more (noteHere cause >>= f) (noteHere cause >>= g) Q :=
  fun s s' b t state run => noting s.peek s'.peek h s s' b t state run

theorem numbering {f g : NodeId → Rule β} (h : ∀ i, Carries more (f i) (g i) Q) :
    Carries more (freshId >>= f) (freshId >>= g) Q := by
  intro s s' b t state run
  change f s.nextId { s with nextId := s.nextId + 1 } = _ at run
  show _ ∧ ∃ t', g s'.nextId { s' with nextId := s'.nextId + 1 } = _ ∧ _
  rw [state.nextId]
  exact h s.nextId { s with nextId := s.nextId + 1 } { s' with nextId := s.nextId + 1 } b t
    ⟨state.rest, rfl, state.noted, state.classless⟩ run

end Carries

/-! ### Lists -/

/-- A semicolon starts what stands behind the tokens. -/
def Terminator (more : List Token) : Prop := ∃ t us, more = t :: us ∧ t.kind = .symbol .semicolon

theorem Terminator.stops (h : Terminator more) {kinds : List Kind}
    (goesOn : Kind.symbol .semicolon ∉ kinds) : Stops kinds more := by
  obtain ⟨t, us, rfl, isStop⟩ := h
  simpa [Stops, isStop] using goesOn

section Terminated

variable (ends : Terminator more)

include ends

theorem commaSeparated_carries {item item' : Rule Expr} (excess : SyntaxFault)
    (h : Carries more item item' Expr.Classless) {count fuel fuel' : Nat} (le : fuel ≤ fuel') :
    Carries more (commaSeparated item excess count fuel) (commaSeparated item' excess count fuel')
      Expr.ClasslessAll := by
  induction fuel generalizing count fuel' with
  | zero => exact Carries.throw _
  | succ fuel ih =>
    obtain ⟨fuel', rfl⟩ := Nat.exists_eq_add_one_of_ne_zero (Nat.ne_zero_of_lt le)
    have items : Carries more
        (item >>= fun first => accept? (.symbol .comma) >>= fun o => if o.isSome = true then
          (do return first :: (← commaSeparated item excess (count + 1) fuel)) else pure [first])
        (item' >>= fun first => accept? (.symbol .comma) >>= fun o => if o.isSome = true then
          (do return first :: (← commaSeparated item' excess (count + 1) fuel')) else pure [first])
        Expr.ClasslessAll := by
      refine h.bind fun first own => Carries.accepting (ends.stops (by decide)) (fun _ _ => ?_)
        (Carries.pure ⟨own, trivial⟩)
      have rest : Carries more (commaSeparated item excess (count + 1) fuel)
          (commaSeparated item' excess (count + 1) fuel') Expr.ClasslessAll :=
        ih (Nat.le_of_succ_le_succ le)
      exact rest.bind fun _ others => Carries.pure ⟨own, others⟩
    exact Carries.ite (Carries.notingHere items) items

theorem listed_carries {item item' : Rule Expr} (excess : SyntaxFault)
    (h : Carries more item item' Expr.Classless) {fuel fuel' : Nat} (le : fuel ≤ fuel') :
    Carries more (listed item excess fuel) (listed item' excess fuel') Expr.ClasslessAll :=
  Carries.sees (ends.stops (by decide)) fun _ =>
    Carries.ite (Carries.pure trivial) (commaSeparated_carries ends excess h le)

/-! ### Expressions -/

section Nested

variable {nested nested' : Rule Expr} (h : Carries more nested nested' Expr.Classless)

include h

theorem primaryAfter_carries {t : Token} (classless : t.kind ∉ classWords) :
    Option.Rel (fun x y => Carries more x y Expr.Classless) (primaryAfter nested t)
      (primaryAfter nested' t) := by
  unfold primaryAfter
  split
  · next isSuper => exact absurd (isSuper ▸ by decide) classless
  · next isThis => exact absurd (isThis ▸ by decide) classless
  · exact .some <| Carries.numbering fun _ => Carries.pure trivial
  · exact .some <| h.bind fun _ own => Carries.expecting (ends.stops (by decide)) fun _ =>
      Carries.pure own
  · cases Ebnf.literalOf? t.kind with
    | none => exact .none
    | some l => exact .some (Carries.pure trivial)

theorem primary_carries : Carries more (primary nested) (primary nested') Expr.Classless := by
  intro s s' a t state run
  cases read : s.rest with
  | nil =>
    rw [primary_nil nested s read] at run
    cases run
  | cons u us =>
    have read' : s'.rest = u :: (us ++ more) := by
      rw [state.rest, read]
      rfl
    have own : u.kind ∉ classWords := state.classless u (read ▸ List.mem_cons_self)
    have after := primaryAfter_carries ends h own
    rw [primary_cons nested u s us read] at run
    rw [primary_cons nested' u s' _ read']
    generalize primaryAfter nested u = x at after run
    generalize primaryAfter nested' u = y at after ⊢
    cases after with
    | none => cases run
    | some together => exact together _ _ a t (state.moved read) run

theorem suffixes_carries {fuel fuel' : Nat} (le : fuel ≤ fuel') {e : Expr} (own : e.Classless) :
    Carries more (suffixes nested fuel e) (suffixes nested' fuel' e) Expr.Classless := by
  induction fuel generalizing fuel' e with
  | zero => exact Carries.throw _
  | succ fuel ih =>
    obtain ⟨fuel', rfl⟩ := Nat.exists_eq_add_one_of_ne_zero (Nat.ne_zero_of_lt le)
    have le' := Nat.le_of_succ_le_succ le
    refine Carries.accepting (ends.stops (by decide)) (fun _ _ => ?_)
      (Carries.accepting (ends.stops (by decide)) (fun _ _ => ?_) (Carries.pure own))
    · exact (listed_carries ends _ h le).bind fun _ all =>
        Carries.expecting (ends.stops (by decide)) fun _ => ih le' ⟨own, all⟩
    · exact Carries.expecting (ends.stops (by decide)) fun _ => ih le' own

theorem unary_carries {fuel fuel' : Nat} (le : fuel ≤ fuel') :
    Carries more (unary nested fuel) (unary nested' fuel') Expr.Classless := by
  induction fuel generalizing fuel' with
  | zero => exact Carries.throw _
  | succ fuel ih =>
    obtain ⟨fuel', rfl⟩ := Nat.exists_eq_add_one_of_ne_zero (Nat.ne_zero_of_lt le)
    refine Carries.accepting (ends.stops (by decide)) (fun _ _ => ?_) ?_
    · exact (ih (Nat.le_of_succ_le_succ le)).bind fun _ own => Carries.pure own
    · exact (primary_carries ends h).bind fun _ own => suffixes_carries ends h le own

omit h in
theorem chain_carries {level : Level} (mem : level ∈ levels) {operand operand' : Rule Expr}
    (h : Carries more operand operand' Expr.Classless) {fuel fuel' : Nat} (le : fuel ≤ fuel')
    {left : Expr} (own : left.Classless) :
    Carries more (chain level operand fuel left) (chain level operand' fuel' left)
      Expr.Classless := by
  induction fuel generalizing fuel' left with
  | zero => exact Carries.throw _
  | succ fuel ih =>
    obtain ⟨fuel', rfl⟩ := Nat.exists_eq_add_one_of_ne_zero (Nat.ne_zero_of_lt le)
    have operators : ∀ l ∈ levels, Kind.symbol .semicolon ∉ l.operators := by decide
    have nodes : ∀ l ∈ levels, ∀ e t e', e.Classless → e'.Classless → (l.node e t e').Classless := by
      simp +contextual [levels, Expr.Classless]
    refine Carries.accepting (ends.stops (operators level mem)) (fun operator _ => ?_)
      (Carries.pure own)
    exact h.bind fun right own' => ih (Nat.le_of_succ_le_succ le) (nodes level mem _ _ _ own own')

omit h in
theorem binary_carries {operand operand' : Rule Expr}
    (h : Carries more operand operand' Expr.Classless) {fuel fuel' : Nat} (le : fuel ≤ fuel')
    (ls : List Level) (sub : ∀ l ∈ ls, l ∈ levels) :
    Carries more (binary operand fuel ls) (binary operand' fuel' ls) Expr.Classless := by
  induction ls with
  | nil => exact h
  | cons level tighter ih =>
    obtain ⟨mem, others⟩ := List.forall_mem_cons.1 sub
    exact (ih others).bind fun _ own => chain_carries ends mem (ih others) le own

omit ends h in
theorem assigned_carries (equals : Token) {value target : Expr} (own : value.Classless)
    (own' : target.Classless) :
    Carries more (assigned equals value target) (assigned equals value target) Expr.Classless := by
  cases fixed : assignable target with
  | false =>
    rw [assigned_other fixed]
    exact Carries.noting _ _ (Carries.pure own')
  | true =>
    cases target with
    | «variable» id name => exact Carries.numbering fun _ => Carries.pure own
    | get object name => exact Carries.pure ⟨own', own⟩
    | literal | unary | binary | logical | group | assign | call | set | this | super => cases fixed

theorem assignment_carries {fuel fuel' : Nat} (le : fuel ≤ fuel') :
    Carries more (assignment nested fuel) (assignment nested' fuel') Expr.Classless := by
  have operand := unary_carries ends h le
  refine (binary_carries ends operand le levels fun _ mem => mem).bind fun target own =>
    Carries.accepting (ends.stops (by decide)) (fun equals _ => ?_) (Carries.pure own)
  exact h.bind fun value own' => assigned_carries equals own' own

end Nested

theorem expression_carries {fuel fuel' : Nat} (le : fuel ≤ fuel') :
    Carries more (expression fuel) (expression fuel') Expr.Classless := by
  induction fuel generalizing fuel' with
  | zero => exact Carries.throw _
  | succ fuel ih =>
    obtain ⟨fuel', rfl⟩ := Nat.exists_eq_add_one_of_ne_zero (Nat.ne_zero_of_lt le)
    exact assignment_carries ends (ih (Nat.le_of_succ_le_succ le)) le

end Terminated

/-! ### Whole expressions -/

/-- An expression that was read without faults was read to the end. -/
theorem wholeExpression_ok {tokens : List Token} {nextId : NodeId} {e : Expr}
    (read : (parseExpression tokens nextId).result = .ok e) :
    ∃ t : State, expression (tokens.length + 1) (State.start tokens nextId) = .ok e t ∧
      t.rest = [] ∧ t.noted = [] ∧ (parseExpression tokens nextId).nextId = t.nextId := by
  rw [parseExpression_eq] at read ⊢
  cases run : wholeExpression (tokens.length + 1) (State.start tokens nextId) with
  | error failure t =>
    rw [run] at read
    cases failure <;> cases read
  | ok e' u =>
    rw [run] at read
    rw [Parsed.ofResult_ok] at read ⊢
    dsimp only at read ⊢
    split at read
    · next clean =>
      cases read
      obtain ⟨e', t, run, rest⟩ := bind_ok run
      change (if (!t.rest.isEmpty) = true then noteHere .expectEndOfExpression >>= fun _ => pure e'
        else pure e' : Rule Expr) t = .ok e u at rest
      cases ended : t.rest.isEmpty with
      | true =>
        rw [ended] at rest
        cases rest
        exact ⟨_, run, List.isEmpty_iff.1 ended, List.isEmpty_iff.1 clean, rfl⟩
      | false =>
        rw [ended] at rest
        cases rest
        exact absurd (List.isEmpty_iff.1 clean) (List.concat_ne_nil _ _)
    · cases read

theorem program_single {fuel : Nat} {s t : State} {a : Stmt} (room : s.rest ≠ [])
    (run : declarationOrFail (nested (fuel + 2)) (fuel + 2) false s = .ok a t) (ended : t.rest = []) :
    program (fuel + 2) s = .ok [a] t := by
  have first : declaration (nested (fuel + 2)) (fuel + 2) false s = .ok (some a) t :=
    declaration_of_ok run
  have last : declarations none (declaration (nested (fuel + 2)) (fuel + 2) false) (fuel + 1) t =
      .ok [] t := by
    rw [declarations_unclosed]
    show (if (false || t.rest.isEmpty) = true then _ else _ : Rule (List Stmt)) t = _
    rw [ended]
    rfl
  rw [program, declarations_unclosed]
  show (if (false || s.rest.isEmpty) = true then _ else _ : Rule (List Stmt)) s = _
  rw [if_neg (by simpa using room), bind_of_ok first]
  exact bind_of_ok last

/-- A statement that starts with the word `print`. -/
theorem declarationOrFail_print (n : Nested State) (inLoop : Bool) {fuel : Nat} {s t : State}
    {print semicolon : Token} {ts : List Token} {e : Expr} (starts : s.rest = print :: ts)
    (opens : print.kind = .keyword .print) (isStop : semicolon.kind = .symbol .semicolon)
    (read : expression fuel { s with rest := ts } = .ok e t) (last : t.rest = [semicolon]) :
    declarationOrFail n fuel inLoop s = .ok (.print e) { t with rest := [] } := by
  have undeclared : print.kind ∉ declarationOpeners := opens ▸ by decide
  have stated : print.kind ∈ statementOpeners := opens ▸ by decide
  have ended : expect (.symbol .semicolon) .expectPrintEnd t =
      .ok semicolon { t with rest := [] } := by
    rw [expect, accept?,
      bind_of_ok ((acceptAny?_cons _ semicolon t [] last).trans (if_pos (by simp [isStop])))]
    rfl
  rw [declarationOrFail, bind_of_ok ((acceptAny?_cons _ print s ts starts).trans
    (if_neg undeclared))]
  dsimp only
  rw [statement, bind_of_ok ((acceptAny?_cons _ print s ts starts).trans (if_pos stated))]
  simp only [opens]
  rw [printStatement, bind_of_ok read, bind_of_ok ended]
  rfl

/-- An expression that is read to the end is read as that between the word `print` and a
semicolon. -/
theorem parse_print {ts : List Token} {stop : Token} (print semicolon stop' : Token)
    (proper : ∀ t ∈ ts, t.kind ≠ .eof) (ends : stop.kind = .eof)
    (opens : print.kind = .keyword .print) (isStop : semicolon.kind = .symbol .semicolon)
    (ends' : stop'.kind = .eof) (classless : ∀ t ∈ ts, t.kind ∉ classWords) {nextId : NodeId}
    {e : Expr} (read : (parseExpression (ts ++ [stop]) nextId).result = .ok e) :
    e.Classless ∧ parse (print :: ts ++ [semicolon] ++ [stop']) nextId =
      ⟨.ok [.print e], (parseExpression (ts ++ [stop]) nextId).nextId⟩ := by
  obtain ⟨t, run, left, clean, next⟩ := wholeExpression_ok read
  have start := start_rest proper ends nextId
  have proper' : ∀ t ∈ print :: ts ++ [semicolon], t.kind ≠ .eof := by
    intro t mem
    rcases List.mem_append.1 mem with inner | last
    · rcases List.mem_cons.1 inner with rfl | inside
      · simp [opens]
      · exact proper t inside
    · cases List.mem_singleton.1 last
      simp [isStop]
  have start' := start_rest proper' ends' nextId
  generalize whole : State.start (print :: ts ++ [semicolon] ++ [stop']) nextId = s at start'
  have ahead : Ahead [semicolon] (State.start (ts ++ [stop]) nextId)
      { s with rest := ts ++ [semicolon] } := by
    subst whole
    refine ⟨?_, rfl, rfl, ?_⟩
    · rw [start]
    · rw [start]
      exact classless
  have fuel : (ts ++ [stop]).length + 1 ≤ ts.length + 2 + 2 := by simp
  have terminated : Terminator [semicolon] := ⟨semicolon, [], rfl, isStop⟩
  obtain ⟨own, t', run', after⟩ := expression_carries terminated fuel _ _ e t ahead run
  refine ⟨own, ?_⟩
  have last : t'.rest = [semicolon] := by
    rw [after.rest, left]
    rfl
  have noted : t'.noted = [] := by
    have := after.noted
    rw [clean] at this
    exact List.length_eq_zero_iff.1 this
  have statement := declarationOrFail_print (nested (ts.length + 2 + 2)) false start' opens isStop
    run' last
  have room : s.rest ≠ [] := by
    rw [start']
    exact List.cons_ne_nil _ _
  have length : (print :: ts ++ [semicolon] ++ [stop']).length + 1 = ts.length + 2 + 2 := by simp
  rw [parse_eq, whole, length, program_single room statement rfl, next, ← after.nextId]
  show Parsed.mk (if t'.noted.isEmpty = true then _ else _) _ = _
  rw [noted]
  rfl

end Grammar

end Lox
