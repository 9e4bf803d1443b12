import Lox.Proofs.Grammar.Completeness.Expression
import Lox.Proofs.Grammar.Lenient.Derivation
import Lox.Proofs.Grammar.Lenient.Noting
import Lox.Proofs.Grammar.Sentence

/-!
# Expressions and their violations

The rule for expressions takes what the lenient grammar derives as an expression and notes its
violations (`notes_expression`). Whether the tree that an operation yields can be assigned to is
what the derivation says.
-/

namespace Lox.Grammar

open Lenient (surplus)

/-! ### Lists of items -/

section Lists

variable {α : Type} {item : Rule α} {D : List Token → List Diagnostic → Prop} {kinds : List Kind}
  {bound : Nat}

/-- An item is taken with its violations before a token of none of these kinds. -/
def ItemNoted (item : Rule α) (D : List Token → List Diagnostic → Prop) (kinds : List Kind)
    (bound : Nat) : Prop :=
  ∀ {ts vs rest}, D ts vs → Stops kinds rest → ts.length + rest.length < bound →
    Notes item ts rest vs

/-- An item too many is noted before it is read. -/
theorem notes_surplus {β : Type} {k : Unit → Rule β} {excess : SyntaxFault} {count : Nat} {t : Token}
    {us ts rest : List Token} {vs : List Diagnostic} {P : β → Prop}
    (h : Notes (k ()) (t :: ts) rest vs P) :
    Notes (if mostArguments ≤ count then noteHere excess >>= k else k ()) (t :: ts) rest
      (surplus excess count (t :: us) ++ vs) P := by
  by_cases many : mostArguments ≤ count
  · have one : surplus excess count (t :: us) = [.grammatical t excess] := if_pos many
    rw [if_pos many, one]
    exact .notingHere h
  · have none : surplus excess count (t :: us) = [] := if_neg many
    rw [if_neg many, none]
    exact h

theorem notes_commaSeparated (h : ItemNoted item D kinds bound) (comma : .symbol .comma ∉ kinds)
    (starts : ∀ {ts vs}, D ts vs → ∃ t us, ts = t :: us) (excess : SyntaxFault) {count : Nat}
    {ts rest : List Token} {vs : List Diagnostic} (items : Lenient.Items D excess count ts vs)
    (stops : Stops kinds rest) (ends : Stops [.symbol .comma] rest)
    (room : ts.length + rest.length < bound) {fuel : Nat}
    (fuelled : ts.length + rest.length < fuel) :
    Notes (commaSeparated item excess count fuel) ts rest vs := by
  induction items generalizing fuel with
  | one derived =>
    obtain ⟨fuel, rfl⟩ := Nat.exists_eq_add_one_of_ne_zero (n := fuel) (by omega)
    obtain ⟨t, us, rfl⟩ := starts derived
    exact notes_surplus (k := fun _ => item >>= _)
      ((h derived stops room).last fun first _ => .declining ends (.pure trivial))
  | @more _ ts _ comma' us _ derived isComma _ ih =>
    obtain ⟨fuel, rfl⟩ := Nat.exists_eq_add_one_of_ne_zero (n := fuel) (by omega)
    simp only [List.length_append, List.length_cons] at room fuelled
    have first : Notes item ts (comma' :: (us ++ rest)) _ :=
      h derived (stops_cons (isComma ▸ comma)) (by simp; omega)
    obtain ⟨t, ts, rfl⟩ := starts derived
    refine notes_surplus (k := fun _ => item >>= _) (first.bind fun first _ =>
      .accepting (List.mem_singleton.2 isComma) ?_)
    exact (ih (by omega) (by omega)).last fun others _ => .pure trivial

theorem items_start (starts : ∀ {ts vs}, D ts vs → ∃ t us, ts = t :: us ∧ t.kind ∉ kinds)
    {excess : SyntaxFault} {count : Nat} {ts : List Token} {vs : List Diagnostic}
    (items : Lenient.Items D excess count ts vs) : ∃ t us, ts = t :: us ∧ t.kind ∉ kinds := by
  cases items with
  | one derived => exact starts derived
  | more derived =>
    obtain ⟨t, us, rfl, other⟩ := starts derived
    exact ⟨t, _, rfl, other⟩

theorem notes_listed (h : ItemNoted item D kinds bound) (comma : .symbol .comma ∉ kinds)
    (paren : .symbol .rightParen ∉ kinds)
    (starts : ∀ {ts vs}, D ts vs → ∃ t us, ts = t :: us ∧ t.kind ∉ [Kind.symbol .rightParen])
    (excess : SyntaxFault) {ts rest : List Token} {closing : Token} {vs : List Diagnostic}
    (listing : Lenient.Listing D excess ts vs) (isClosing : closing.kind = .symbol .rightParen)
    (room : ts.length + (closing :: rest).length < bound) {fuel : Nat}
    (fuelled : ts.length + (closing :: rest).length < fuel) :
    Notes (listed item excess fuel) ts (closing :: rest) vs := by
  cases listing with
  | none => exact .seeing isClosing rfl (.pure trivial)
  | some items =>
    obtain ⟨t, us, rfl, other⟩ := items_start starts items
    apply Notes.missing (stops_cons other)
    exact notes_commaSeparated h comma (fun derived => let ⟨t, us, split, _⟩ := starts derived
      ⟨t, us, split⟩) excess items (stops_cons (isClosing ▸ paren)) (stops_cons (by simp [isClosing]))
      room fuelled

end Lists

/-! ### First tokens -/

section Starts

variable {D : List Token → List Diagnostic → Prop} {ts : List Token} {place : Bool}
  {vs : List Diagnostic}

theorem lenient_primary_starts (h : Lenient.Primary D ts place vs) :
    ∃ t us, ts = t :: us ∧ t.kind ∉ unaryOperators ++ nonStarters := by
  cases h with
  | literal isLiteral =>
    refine ⟨_, _, rfl, fun mem => ?_⟩
    rw [literalOf?_nonStarters _ mem] at isLiteral
    cases isLiteral
  | this isThis => exact ⟨_, _, rfl, isThis ▸ by decide⟩
  | name isName => exact ⟨_, _, rfl, isName ▸ by decide⟩
  | group isOpening => exact ⟨_, _, rfl, isOpening ▸ by decide⟩
  | super isSuper => exact ⟨_, _, rfl, isSuper ▸ by decide⟩

theorem lenient_call_starts (h : Lenient.Call D ts place vs) :
    ∃ t us, ts = t :: us ∧ t.kind ∉ unaryOperators ++ nonStarters := by
  obtain ⟨first, -⟩ := h
  obtain ⟨t, us, rfl, other⟩ := lenient_primary_starts first
  exact ⟨t, _, rfl, other⟩

theorem lenient_unary_starts (h : Lenient.Unary D ts place vs) :
    ∃ t us, ts = t :: us ∧ t.kind ∉ nonStarters := by
  cases h with
  | operator isOperator =>
    have disjoint : ∀ k ∈ unaryOperators, k ∉ nonStarters := by decide
    exact ⟨_, _, rfl, disjoint _ isOperator⟩
  | call call =>
    obtain ⟨t, us, rfl, other⟩ := lenient_call_starts call
    exact ⟨t, us, rfl, fun mem => other (List.mem_append_right _ mem)⟩

theorem lenient_joined_starts {p : Ebnf.Precedence}
    {D : List Token → Bool → List Diagnostic → Prop}
    (starts : ∀ {ts place vs}, D ts place vs → ∃ t us, ts = t :: us ∧ t.kind ∉ nonStarters)
    {ts : List Token} {place : Bool} {vs : List Diagnostic} (h : Lenient.Joined p D ts place vs) :
    ∃ t us, ts = t :: us ∧ t.kind ∉ nonStarters := by
  obtain ⟨first, -⟩ := h
  obtain ⟨t, us, rfl, other⟩ := starts first
  exact ⟨t, _, rfl, other⟩

theorem lenient_expression_starts (h : Lenient.Expression ts vs) :
    ∃ t us, ts = t :: us ∧ t.kind ∉ nonStarters := by
  obtain ⟨operation, -⟩ := h
  obtain ⟨t, us, rfl, other⟩ := lenient_joined_starts (lenient_joined_starts (lenient_joined_starts
    (lenient_joined_starts (lenient_joined_starts (lenient_joined_starts lenient_unary_starts)))))
    operation
  exact ⟨t, _, rfl, other⟩

end Starts

/-! ### Calls and operators -/

/-- What `D` derives is taken by a rule, with its violations, if fewer than `bound` tokens are there
and the next one is of none of these kinds. -/
structure Reports (r : Rule Expr) (D : List Token → Bool → List Diagnostic → Prop)
    (kinds : List Kind) (bound : Nat) : Prop where
  notes : ∀ {ts place vs rest}, D ts place vs → Stops kinds rest → ts.length + rest.length < bound →
    Notes r ts rest vs fun e => assignable e = place

section Nested

variable {nested : Rule Expr} {bound : Nat}
  (h : ItemNoted nested Lenient.Expression expressionExtenders bound)

include h

theorem notes_primary {ts rest : List Token} {place : Bool} {vs : List Diagnostic}
    (derived : Lenient.Primary Lenient.Expression ts place vs)
    (room : ts.length + rest.length < bound + 1) :
    Notes (primary nested) ts rest vs fun e => assignable e = place := by
  have after : ∀ {t us q}, primaryAfter nested t = some q →
      Notes q us rest vs (fun e => assignable e = place) →
      Notes (primary nested) (t :: us) rest vs fun e => assignable e = place := by
    intro t us q found noted s read
    rw [primary_cons nested t s (us ++ rest) read, found]
    exact noted { s with rest := us ++ rest } rfl
  cases derived with
  | @literal t l isLiteral =>
    have found : primaryAfter nested t = some (return .literal l) := by
      unfold primaryAfter
      split <;> simp_all [Ebnf.literalOf?]
    exact after found (.pure rfl)
  | this isThis =>
    apply after (by rw [primaryAfter, isThis])
    exact .numbering fun id => .pure rfl
  | name isName =>
    apply after (by rw [primaryAfter, isName])
    exact .numbering fun id => .pure rfl
  | group isOpening inner isClosing =>
    simp only [List.length_cons, List.length_append, List.length_nil] at room
    apply after (by rw [primaryAfter, isOpening])
    refine (h inner (stops_cons ?_) (by simp; omega)).before fun e _ =>
      .expecting isClosing (.pure rfl)
    exact isClosing ▸ closers_not_extend _ (by simp)
  | super isSuper isDot isName =>
    apply after (by rw [primaryAfter, isSuper])
    exact .expecting isDot (.expecting isName (.numbering fun id => .pure rfl))

theorem notes_arguments {ts rest : List Token} {closing : Token} {vs : List Diagnostic}
    (listing : Lenient.Listing Lenient.Expression .tooManyArguments ts vs)
    (isClosing : closing.kind = .symbol .rightParen)
    (room : ts.length + (closing :: rest).length < bound) {fuel : Nat}
    (fuelled : ts.length + (closing :: rest).length < fuel) :
    Notes (listed nested .tooManyArguments fuel) ts (closing :: rest) vs := by
  have starts : ∀ {ts vs}, Lenient.Expression ts vs →
      ∃ t us, ts = t :: us ∧ t.kind ∉ [Kind.symbol .rightParen] := by
    intro ts vs derived
    obtain ⟨t, us, rfl, other⟩ := lenient_expression_starts derived
    exact ⟨t, us, rfl, fun mem => other (List.mem_singleton.1 mem ▸ by decide)⟩
  exact notes_listed h (closers_not_extend _ (by simp)) (closers_not_extend _ (by simp)) starts _
    listing isClosing room fuelled

theorem notes_suffixes {e : Expr} {before place : Bool} {us rest : List Token}
    {vs : List Diagnostic} (derived : Lenient.Suffixes Lenient.Expression before us place vs)
    (same : assignable e = before) (stops : Stops (extenders []) rest) {fuel : Nat}
    (fuelled : us.length + rest.length < fuel) (room : us.length + rest.length < bound + 1) :
    Notes (suffixes nested fuel e) us rest vs fun e' => assignable e' = place := by
  induction derived generalizing e fuel with
  | done =>
    obtain ⟨fuel, rfl⟩ := Nat.exists_eq_add_one_of_ne_zero (n := fuel) (by omega)
    have noCall : Stops [.symbol .leftParen] rest := stops.mono (by simp [extenders])
    have noProperty : Stops [.symbol .dot] rest := stops.mono (by simp [extenders])
    exact .declining noCall (.declining noProperty (.pure same))
  | call isOpening listing isClosing _ ih =>
    obtain ⟨fuel, rfl⟩ := Nat.exists_eq_add_one_of_ne_zero (n := fuel) (by omega)
    simp only [List.length_append, List.length_cons] at fuelled room
    refine .accepting (by simp [isOpening]) ((notes_arguments h listing isClosing (by simp; omega)
      (by simp; omega)).bind fun arguments _ => .expecting isClosing ?_)
    exact ih rfl (by omega) (by omega)
  | property isDot isName _ ih =>
    obtain ⟨fuel, rfl⟩ := Nat.exists_eq_add_one_of_ne_zero (n := fuel) (by omega)
    simp only [List.length_cons] at fuelled room
    exact .declining (stops_cons (by simp [isDot])) (.accepting (by simp [isDot])
      (.expecting isName (ih rfl (by omega) (by omega))))

theorem notes_unary {ts rest : List Token} {place : Bool} {vs : List Diagnostic}
    (derived : Lenient.Unary Lenient.Expression ts place vs) (stops : Stops (extenders []) rest)
    {fuel : Nat} (fuelled : ts.length + rest.length < fuel)
    (room : ts.length + rest.length < bound + 1) :
    Notes (unary nested fuel) ts rest vs fun e => assignable e = place := by
  induction derived generalizing fuel with
  | operator isOperator _ ih =>
    obtain ⟨fuel, rfl⟩ := Nat.exists_eq_add_one_of_ne_zero (n := fuel) (by omega)
    simp only [List.length_cons] at fuelled room
    exact .accepting isOperator ((ih (by omega) (by omega)).last fun right _ => .pure rfl)
  | call call =>
    obtain ⟨fuel, rfl⟩ := Nat.exists_eq_add_one_of_ne_zero (n := fuel) (by omega)
    obtain ⟨t, vs, split, other⟩ := lenient_call_starts call
    obtain ⟨first, others⟩ := call
    simp only [List.length_append] at fuelled room
    refine .declining (split ▸ stops_cons fun mem => other (List.mem_append_left _ mem))
      ((notes_primary h first (by simp; omega)).bind fun e same =>
        notes_suffixes h others same stops (by omega) (by omega))

end Nested

section Levels

variable {level : Level} {p : Ebnf.Precedence} {D : List Token → Bool → List Diagnostic → Prop}
  {bound : Nat} (operators : ∀ k ∈ p.operators, k ∈ level.operators)
  (node : ∀ l t r, assignable (level.node l t r) = false)

include operators

theorem lenient_joins_follow {kinds : List Kind} (disjoint : ∀ k ∈ level.operators, k ∉ kinds)
    {before place : Bool} {us rest : List Token} {vs : List Diagnostic}
    (derived : Lenient.Joins p D before us place vs)
    (stops : Stops (level.operators ++ kinds) rest) : Stops kinds (us ++ rest) := by
  cases derived with
  | done => exact stops.mono fun k mem => List.mem_append_right _ mem
  | more isOperator => exact stops_cons (disjoint _ (operators _ isOperator))

include node

theorem notes_chain {operand : Rule Expr} {kinds : List Kind}
    (disjoint : ∀ k ∈ level.operators, k ∉ kinds) (h : Reports operand D kinds bound)
    {left : Expr} {before place : Bool} {us rest : List Token} {vs : List Diagnostic}
    (derived : Lenient.Joins p D before us place vs) (same : assignable left = before)
    (stops : Stops (level.operators ++ kinds) rest) {fuel : Nat}
    (fuelled : us.length + rest.length < fuel) (room : us.length + rest.length < bound) :
    Notes (chain level operand fuel left) us rest vs fun e => assignable e = place := by
  induction derived generalizing left fuel with
  | done =>
    obtain ⟨fuel, rfl⟩ := Nat.exists_eq_add_one_of_ne_zero (n := fuel) (by omega)
    exact .declining (stops.mono fun k mem => List.mem_append_left _ mem) (.pure same)
  | more isOperator first others ih =>
    obtain ⟨fuel, rfl⟩ := Nat.exists_eq_add_one_of_ne_zero (n := fuel) (by omega)
    simp only [List.length_append, List.length_cons] at fuelled room
    refine .accepting (operators _ isOperator) ((h.notes first
      (lenient_joins_follow operators disjoint others stops) (by simp; omega)).bind
      fun right _ => ?_)
    exact ih (node _ _ _) (by omega) (by omega)

theorem notes_level {tighter : List Level} {operand : Rule Expr}
    (disjoint : ∀ k ∈ level.operators, k ∉ extenders tighter)
    (h : Reports (binary operand bound tighter) D (extenders tighter) bound) :
    Reports (binary operand bound (level :: tighter)) (Lenient.Joined p D)
      (extenders (level :: tighter)) bound := by
  refine ⟨@fun ts place vs rest derived stops room => ?_⟩
  have stops : Stops (level.operators ++ extenders tighter) rest := by
    simpa [extenders] using stops
  obtain ⟨first, others⟩ := derived
  simp only [List.length_append] at room
  refine (h.notes first (lenient_joins_follow operators disjoint others stops) (by simp; omega)).bind
    fun left same => ?_
  exact notes_chain operators node disjoint h others same stops (by omega) (by omega)

end Levels

/-- `logic_or` with its operands, down to `factor`. -/
abbrev LogicOr (unary : List Token → Bool → List Diagnostic → Prop) :
    List Token → Bool → List Diagnostic → Prop :=
  Lenient.Joined .logicOr (Lenient.Joined .logicAnd (Lenient.Joined .equality
    (Lenient.Joined .comparison (Lenient.Joined .term (Lenient.Joined .factor unary)))))

theorem notes_binary {operand : Rule Expr} {D : List Token → Bool → List Diagnostic → Prop}
    {bound : Nat} (h : Reports operand D (extenders []) bound) :
    Reports (binary operand bound levels) (LogicOr D) (extenders levels) bound := by
  have factor : Reports (binary operand bound (levels.drop 5)) _ _ bound :=
    notes_level (p := .factor) (by decide) (fun _ _ _ => rfl) (by decide) h
  have term : Reports (binary operand bound (levels.drop 4)) _ _ bound :=
    notes_level (p := .term) (by decide) (fun _ _ _ => rfl) (by decide) factor
  have comparison : Reports (binary operand bound (levels.drop 3)) _ _ bound :=
    notes_level (p := .comparison) (by decide) (fun _ _ _ => rfl) (by decide) term
  have equality : Reports (binary operand bound (levels.drop 2)) _ _ bound :=
    notes_level (p := .equality) (by decide) (fun _ _ _ => rfl) (by decide) comparison
  have logicAnd : Reports (binary operand bound (levels.drop 1)) _ _ bound :=
    notes_level (p := .logicAnd) (by decide) (fun _ _ _ => rfl) (by decide) equality
  exact notes_level (p := .logicOr) (by decide) (fun _ _ _ => rfl) (by decide) logicAnd

/-! ### Assignments -/

/-- An equals sign is noted unless what stands left of it can be assigned to. -/
theorem notes_assigned {target : Expr} {place : Bool} (same : assignable target = place)
    (equals : Token) (value : Expr) (rest : List Token) :
    Notes (assigned equals value target) [] rest
      (if place then [] else [.grammatical equals .invalidAssignmentTarget]) := by
  subst same
  cases fixed : assignable target with
  | true =>
    cases target with
    | «variable» => exact .numbering fun id => .pure trivial
    | get => exact .pure trivial
    | _ => cases fixed
  | false =>
    rw [assigned_other fixed]
    exact .noting (.pure trivial)

theorem notes_assignment {nested : Rule Expr} {bound : Nat}
    (h : ItemNoted nested Lenient.Expression expressionExtenders bound) :
    ItemNoted (assignment nested (bound + 1)) (Lenient.Assignment Lenient.Expression)
      expressionExtenders (bound + 1) := by
  intro ts vs rest derived stops room
  have target := notes_binary ⟨fun derived stops room => notes_unary h derived stops room room⟩
  obtain ⟨operation, tail⟩ := derived
  simp only [List.length_append] at room
  have assignedTo : ∀ {e place us ws} equals, assignable e = place → Lenient.Expression us ws →
      us.length + rest.length < bound → Notes (nested >>= fun value => assigned equals value e) us
        rest (ws ++ if place then [] else [.grammatical equals .invalidAssignmentTarget]) :=
    fun equals same derived room => (h derived stops room).after fun value _ =>
      notes_assigned same equals value rest
  -- Which of the rules for the equals sign applies is fixed by the tree that was read before it.
  cases tail with
  | none =>
    exact (target.notes operation (stops.mono fun k mem => List.mem_cons_of_mem _ mem)
      (by simpa using room)).bind fun e _ =>
      .declining (stops.mono (by simp [expressionExtenders])) (.pure trivial)
  | @place equals _ _ isEqual derived =>
    simp only [List.length_cons] at room
    refine (target.notes operation (stops_cons (isEqual ▸ by decide)) (by simp; omega)).bind
      fun e same => .accepting (by simp [isEqual]) ?_
    have noted := assignedTo equals same derived (by omega)
    rwa [if_pos rfl, List.append_nil] at noted
  | other isEqual derived =>
    simp only [List.length_cons] at room
    refine (target.notes operation (stops_cons (isEqual ▸ by decide)) (by simp; omega)).bind
      fun e same => .accepting (by simp [isEqual]) ?_
    exact assignedTo _ same derived (by omega)

/-- What is derived as an expression is read, before any token that does not extend it, and its
violations are noted. -/
theorem notes_expression (fuel : Nat) :
    ItemNoted (expression fuel) Lenient.Expression expressionExtenders fuel := by
  induction fuel with
  | zero => exact fun _ _ room => absurd room (Nat.not_lt_zero _)
  | succ fuel ih =>
    rintro ts vs rest ⟨derived⟩ stops room
    exact notes_assignment ih derived stops room

end Lox.Grammar
