import Mathlib.Data.List.TakeWhile
import Lox.Proofs.Grammar.Acceptance
import Lox.Proofs.Grammar.Progress.Loops

/-!
# Every parse comes to an end

Whatever the tokens are, a parse comes to a result, and that of a program ends with the cursor at
the first end marker (`parse_terminates`). No rule moves the cursor back or past that marker, and
what stands behind it makes no difference.
-/

namespace Lox.Grammar

open EStateM (Result)

/-! ### The rules of the grammar -/

/-- Nothing is known about what a rule reads but that it goes on. -/
abbrev Anything {α : Type} : List Token → List Token → α → Prop := fun _ _ _ => True

theorem Reads.anything {α : Type} {r : Rule α} {D : List Token → List Token → α → Prop}
    (h : Reads r D) : Reads r Anything := h.mono fun _ _ _ _ => trivial

theorem chain_goesOn {operand : Rule Expr} (h : Reads operand Anything) (level : Level) (fuel : Nat)
    (left : Expr) : Reads (chain level operand fuel left) Anything := by
  induction fuel generalizing left with
  | zero => exact Reads.throw _
  | succ fuel ih =>
    exact (Reads.accepting (fun operator _ => h.bind fun right => ih (level.node left operator right))
      (Reads.pure left)).anything

theorem binary_goesOn {operand : Rule Expr} (h : Reads operand Anything) (fuel : Nat)
    (ls : List Level) : Reads (binary operand fuel ls) Anything := by
  induction ls with
  | nil => exact h
  | cons level tighter ih => exact (ih.bind fun left => chain_goesOn ih level fuel left).anything

theorem accept_goesOn (kinds : List Kind) : Reads (acceptAny? kinds) Anything := by
  rw [← bind_pure (acceptAny? kinds)]
  exact (Reads.accepting (fun t _ => Reads.pure (some t)) (Reads.pure none)).anything

theorem expect_goesOn (k : Kind) (cause : SyntaxFault) : Reads (expect k cause) Anything := by
  rw [← bind_pure (expect k cause)]
  exact (Reads.expecting fun t _ => Reads.pure t).anything

theorem breakStatement_goesOn (keyword : Token) (inLoop : Bool) :
    Reads (breakStatement keyword inLoop) Anything := by
  refine Reads.unlessNoted (k := fun _ => expect _ _ >>= _) (fun _ => reads_note keyword _)
    (Reads.expecting fun _ _ => Reads.pure _) ?_
  exact fun _ _ _ _ _ => trivial

/-- Every rule only goes on. -/
theorem Production.later {α : Type} {rule : ∀ {σ : Type} [Reader σ], RuleOf σ α}
    (h : Production @rule) (s : State) : Later s (final (rule s)) := by
  have unary : ∀ depth fuel, Reads (Grammar.unary (Grammar.expression depth) fuel) Anything :=
    fun depth fuel => (reads_unary (reads_expression depth) fuel).anything
  cases h with
  | accept kinds => exact (accept_goesOn kinds).later s
  | expect k cause => exact (expect_goesOn k cause).later s
  | primary depth => exact (reads_primary (reads_expression depth)).later s
  | suffixes depth fuel e => exact (reads_suffixes (reads_expression depth) fuel e).later s
  | unary depth fuel => exact (unary depth fuel).later s
  | chain depth fuel level tighter left =>
    exact (chain_goesOn (binary_goesOn (unary depth fuel) fuel tighter) level fuel left).later s
  | binary depth fuel ls => exact (binary_goesOn (unary depth fuel) fuel ls).later s
  | assignment depth fuel => exact (reads_assignment (reads_expression depth) fuel).later s
  | expression depth => exact (reads_expression depth).later s
  | arguments depth count fuel =>
    exact (reads_commaSeparated (reads_expression depth) _ fuel count).later s
  | parameters count fuel => exact (reads_commaSeparated reads_parameter _ fuel count).later s
  | routine r depth fuel => exact (reads_routine (nested_sound depth) fuel r).later s
  | methods depth fuel => exact (reads_methods (nested_sound depth) fuel).later s
  | superclass => exact reads_superclass?.later s
  | classDeclaration depth fuel =>
    exact (reads_classDeclaration (nested_sound depth) fuel false).later s
  | varDeclaration depth => exact (reads_varDeclaration depth).later s
  | expressionStatement depth => exact (reads_expressionStatement depth).later s
  | optionalExpression depth follower => exact (reads_optionalExpression depth follower).later s
  | forInitializer depth => exact (reads_forInitializer depth).later s
  | forStatement depth fuel => exact (reads_forStatement (nested_sound depth) fuel false).later s
  | ifStatement depth fuel inLoop =>
    exact (reads_ifStatement (nested_sound depth) fuel inLoop).later s
  | whileStatement depth fuel => exact (reads_whileStatement (nested_sound depth) fuel false).later s
  | breakStatement keyword inLoop =>
    exact (breakStatement_goesOn keyword inLoop).later s
  | returnStatement keyword depth =>
    exact ((reads_optionalExpression depth _).bind fun value => Reads.expecting fun _ _ =>
      Reads.pure (Stmt.return keyword value)).later s
  | printStatement depth => exact (reads_printStatement depth false).later s
  | statement depth fuel inLoop => exact (reads_statement (nested_sound depth) fuel inLoop).later s
  | declarationOrFail depth fuel inLoop =>
    exact (reads_declarationOrFail (nested_sound depth) fuel inLoop).later s
  | declaration depth fuel inLoop =>
    exact (reads_declaration (nested_sound depth) fuel inLoop).later s
  | declarations closer depth fuel turns inLoop =>
    exact (reads_declarations (reads_declaration (nested_sound depth) fuel inLoop) closer turns).later
      s
  | block depth fuel inLoop => exact (reads_block (nested_sound depth) fuel inLoop).later s
  | program depth => exact (reads_program depth).later s
  | wholeExpression depth => exact (reads_wholeExpression depth).later s

/-! ### The cursor -/

/-- The cursor is on these tokens and has not passed their first end marker. -/
structure Cursor.Inside (c : Cursor) (tokens : List Token) : Prop where
  held : c.tokens = tokens.toArray
  within : c.current ≤ firstEnd tokens

theorem Cursor.Inside.peek {tokens : List Token} {c : Cursor} (h : c.Inside tokens) :
    c.peek = tokens.getD c.current missingEnd := by
  rw [Cursor.peek, h.held]
  simp

/-- No rule moves the cursor back or past the first end marker. -/
theorem Cursor.Inside.goesOn {tokens : List Token} {c : Cursor} (h : c.Inside tokens) {α : Type}
    {rule : ∀ {σ : Type} [Reader σ], RuleOf σ α} (production : Production @rule) :
    c.current ≤ (final (rule c)).current ∧ (final (rule c)).Inside tokens := by
  have shown := (production.shown c).final
  have fewer := (production.later c.state).rest.length_le
  have last : (final (rule c)).last = firstEnd tokens :=
    shown.last.trans (Cursor.last_eq h.held h.within)
  exact ⟨c.shows.moved 0 shown fewer, shown.held.trans h.held,
    last ▸ Nat.le_add_right _ _⟩

/-- The tokens that are left tell where a cursor is. -/
theorem Shows.unique {tokens : Array Token} {last : Nat} {c d : Cursor} {s : State}
    (h : Shows tokens last c s) (h' : Shows tokens last d s) : c = d := by
  have same : c.state = d.state := h.state.trans h'.state.symm
  have left : c.left = d.left := congrArg State.rest same
  have ends : c.current + c.left.length = d.current + d.left.length := h.last.trans h'.last.symm
  have current : c.current = d.current := by
    rw [left] at ends
    omega
  have noted : c.noted = d.noted := congrArg State.noted same
  have nextId : c.nextId = d.nextId := congrArg State.nextId same
  have held : c.tokens = d.tokens := h.held.trans h'.held.symm
  cases c
  cases d
  simp_all

theorem MirroredResult.unique {α : Type} {tokens : Array Token} {last : Nat}
    {r r' : Result Failure Cursor α} {q : Result Failure State α}
    (h : MirroredResult (Shows tokens last) r q) (h' : MirroredResult (Shows tokens last) r' q) :
    r = r' := by
  cases h with
  | ok a shown =>
    cases h' with
    | ok _ shown' => rw [shown.unique shown']
  | error e shown =>
    cases h' with
    | error _ shown' => rw [shown.unique shown']

/-- What is the same at any depth that is enough for the tokens that are left is so for the cursor. -/
theorem Production.settled {α : Type} {rule : Nat → ∀ {σ : Type} [Reader σ], RuleOf σ α}
    (h : ∀ depth, Production (@rule depth)) {c : Cursor} {bound : Nat} {q : Result Failure State α}
    (settled : ∀ depth, bound ≤ depth → rule depth c.state = q) :
    ∃ r, MirroredResult (Shows c.tokens c.last) r q ∧
      ∀ depth, bound ≤ depth → rule depth c = r := by
  have shown : ∀ depth, bound ≤ depth →
      MirroredResult (Shows c.tokens c.last) (rule depth c) q := fun depth enough =>
    settled depth enough ▸ (h depth).shown c
  exact ⟨rule bound c, shown bound (Nat.le_refl _),
    fun depth enough => (shown depth enough).unique (shown bound (Nat.le_refl _))⟩

/-! ### Whole parses -/

/-- A program is read to its end, and in the same way at any depth that is enough. -/
theorem program_ends {s : State} {bound : Nat} (room : s.rest.length < bound) :
    ∃ tree t, t.rest = [] ∧ ∀ depth, bound ≤ depth → program depth s = .ok tree t := by
  obtain ⟨bound, rfl⟩ := Nat.exists_eq_add_one_of_ne_zero (Nat.ne_zero_of_lt room)
  have settles : ∀ depth, bound + 1 ≤ depth → program (bound + 1) s = program depth s ∧
      ∃ tree t, program (bound + 1) s = .ok tree t := by
    intro depth enough
    obtain ⟨depth, rfl⟩ := Nat.exists_eq_add_one_of_ne_zero (n := depth) (by omega)
    have less : bound ≤ depth := Nat.le_of_succ_le_succ enough
    have inner := nested_settles (Nat.le_succ bound) (Nat.le_succ_of_le less)
    obtain ⟨settles, done⟩ : SettlesAt 0 (program (bound + 1)) (program (depth + 1)) s ∧
        ∃ tree t, program (bound + 1) s = .ok tree t :=
      settles_declarations
        (fun m room more => settles_declaration inner (Nat.le_refl _) less false room more)
        (Nat.le_refl _) enough room
    exact ⟨settles.same, done⟩
  obtain ⟨-, tree, t, run⟩ := settles (bound + 1) (Nat.le_refl _)
  exact ⟨tree, t, declarations_end run, fun depth enough => (settles depth enough).1.symm.trans run⟩

/-- An expression up to the end comes to a result, the same at any depth that is enough. -/
theorem wholeExpression_ends {s : State} {bound : Nat} (room : s.rest.length < bound) :
    ∃ r, (∀ t, r ≠ .error .outOfFuel t) ∧ ∀ depth, bound ≤ depth → wholeExpression depth s = r := by
  have settles : ∀ depth, bound ≤ depth →
      SettlesAt 1 (wholeExpression bound) (wholeExpression depth) s := by
    intro depth enough
    refine (settles_expression (Nat.le_refl bound) enough).bind (n := 0) (fun e => ?_)
      (Nat.le_refl _) s room
    exact .ending fun _ => .ite (.notingHere _ (.pure e)) (.pure e)
  refine ⟨wholeExpression bound s, fun t failed => ?_,
    fun depth enough => (settles depth enough).same.symm⟩
  have advances := (settles bound (Nat.le_refl _)).advances
  rw [failed] at advances
  exact advances

theorem start_room (tokens : List Token) (nextId : NodeId) :
    (State.start tokens nextId).rest.length < tokens.length + 1 :=
  Nat.lt_succ_of_le (List.takeWhile_prefix _).length_le

/-- Two lists with the same tokens up to an end marker, or to one that is missing, are parsed in the
same way. -/
theorem parse_of_start {tokens tokens' : List Token} {nextId : NodeId}
    (same : State.start tokens nextId = State.start tokens' nextId) :
    parse tokens nextId = parse tokens' nextId ∧
      parseExpression tokens nextId = parseExpression tokens' nextId := by
  have room := start_room tokens nextId
  have room' := start_room tokens' nextId
  let bound := min (tokens.length + 1) (tokens'.length + 1)
  have start : (State.start tokens nextId).rest.length < bound :=
    Nat.lt_min.2 ⟨room, same ▸ room'⟩
  obtain ⟨tree, t, -, read⟩ := program_ends start
  obtain ⟨r, -, whole⟩ := wholeExpression_ends start
  refine ⟨?_, ?_⟩
  · rw [parse_eq, parse_eq, ← same, read _ (Nat.min_le_left _ _), read _ (Nat.min_le_right _ _)]
  · rw [parseExpression_eq, parseExpression_eq, ← same, whole _ (Nat.min_le_left _ _),
      whole _ (Nat.min_le_right _ _)]

theorem start_behind {before after : List Token} {stop : Token}
    (proper : ∀ t ∈ before, t.kind ≠ .eof) (ends : stop.kind = .eof) (nextId : NodeId) :
    State.start (before ++ stop :: after) nextId = State.start (before ++ [stop]) nextId := by
  have all : ∀ t ∈ before, (t.kind != .eof) = true := fun t mem => by simpa using proper t mem
  have none : before.find? (·.kind == .eof) = none :=
    List.find?_eq_none.2 fun t mem => by simpa using proper t mem
  simp only [State.start, List.takeWhile_append_of_pos all, List.find?_append, none]
  simp [ends]

theorem start_unended {before : List Token} (proper : ∀ t ∈ before, t.kind ≠ .eof)
    (nextId : NodeId) :
    State.start before nextId = State.start (before ++ [missingEnd]) nextId := by
  have all : ∀ t ∈ before, (t.kind != .eof) = true := fun t mem => by simpa using proper t mem
  have none : before.find? (·.kind == .eof) = none :=
    List.find?_eq_none.2 fun t mem => by simpa using proper t mem
  have every : before.takeWhile (·.kind != .eof) = before := List.takeWhile_eq_self_iff.2 all
  simp only [State.start, List.takeWhile_append_of_pos all, List.find?_append, none, every]
  simp [missingEnd]

/-- Every parse comes to a result, and would come to the same at any greater depth. A program is
read up to the first end marker. The cursor starts at the first token, and no rule moves it back or
past the first end marker. Every turn of a loop ends the loop or moves the cursor. What stands behind
the first end marker makes no difference, and if there is none, all is as if one of line 0 were
there. -/
theorem parse_terminates (tokens : List Token) (nextId : NodeId) :
    (∃ tree c, (∀ depth, tokens.length < depth →
        program depth (Cursor.start tokens nextId) = .ok tree c) ∧
      c.isAtEnd = true ∧ c.Inside tokens ∧ c.current = firstEnd tokens ∧
      parse tokens nextId = Parsed.ofResult (.ok tree c)) ∧
    (∃ r, (∀ depth, tokens.length < depth →
        wholeExpression depth (Cursor.start tokens nextId) = r) ∧
      (∀ c, r ≠ .error .outOfFuel c) ∧ parseExpression tokens nextId = Parsed.ofResult r) ∧
    ((Cursor.start tokens nextId).Inside tokens ∧ (Cursor.start tokens nextId).current = 0) ∧
    (∀ {α : Type} {rule : ∀ {σ : Type} [Reader σ], RuleOf σ α}, Production @rule →
      ∀ {c : Cursor}, c.Inside tokens →
      c.peek = tokens.getD c.current missingEnd ∧
      c.current ≤ (final (rule c)).current ∧ (final (rule c)).Inside tokens) ∧
    (∀ {bound depth : Nat}, bound ≤ depth → LoopsAdvance bound depth) ∧
    (∀ before stop after, tokens = before ++ stop :: after → (∀ t ∈ before, t.kind ≠ .eof) →
      stop.kind = .eof →
      parse tokens nextId = parse (before ++ [stop]) nextId ∧
      parseExpression tokens nextId = parseExpression (before ++ [stop]) nextId) ∧
    ((∀ t ∈ tokens, t.kind ≠ .eof) →
      parse tokens nextId = parse (tokens ++ [⟨.eof, "", 0⟩]) nextId ∧
      parseExpression tokens nextId = parseExpression (tokens ++ [⟨.eof, "", 0⟩]) nextId) := by
  have room : (Cursor.start tokens nextId).state.rest.length < tokens.length + 1 :=
    start_state tokens nextId ▸ start_room tokens nextId
  have inside : (Cursor.start tokens nextId).Inside tokens := ⟨rfl, Nat.zero_le _⟩
  refine ⟨?_, ?_, ⟨inside, rfl⟩, fun production _ here => ⟨here.peek, here.goesOn production⟩,
    loops_advance, ?_, fun proper => parse_of_start (start_unended proper nextId)⟩
  · obtain ⟨tree, t, ended, read⟩ := program_ends room
    obtain ⟨r, shown, runs⟩ := Production.settled .program read
    have here := (inside.goesOn (.program (tokens.length + 1))).2
    rw [runs _ (Nat.le_refl _)] at here
    cases shown with
    | @ok _ c _ shown =>
      have none : c.left = [] := (congrArg State.rest shown.state).trans ended
      have last : c.current + c.left.length = firstEnd tokens :=
        shown.last.trans (Cursor.last_eq rfl (Nat.zero_le _))
      refine ⟨tree, c, runs, ?_, here, ?_, congrArg Parsed.ofResult (runs _ (Nat.le_refl _))⟩
      · rw [c.isAtEnd_state, none]
        rfl
      · rwa [none] at last
  · obtain ⟨q, finishes, read⟩ := wholeExpression_ends room
    obtain ⟨r, shown, runs⟩ := Production.settled .wholeExpression read
    refine ⟨r, runs, ?_, congrArg Parsed.ofResult (runs _ (Nat.le_refl _))⟩
    rintro c rfl
    cases shown with
    | error _ shown => exact finishes _ rfl
  · rintro before stop after rfl proper ends
    exact parse_of_start (start_behind proper ends nextId)

/-- `} }` -/
def looseBraces : List Token :=
  [⟨.symbol .rightBrace, "\x7d", 1⟩, ⟨.symbol .rightBrace, "\x7d", 1⟩]

theorem parse_terminates_loose_braces :
    (∃ tree c, program 7 (Cursor.start looseBraces 0) = .ok tree c ∧ c.current = 2) ∧
    (final (methods (nested 3) 3 (Cursor.start looseBraces 0))).Inside looseBraces ∧
    LoopsAdvance 3 7 ∧
    parse (looseBraces ++ ⟨.eof, "", 1⟩ :: looseBraces) 0 =
      parse (looseBraces ++ [⟨.eof, "", 1⟩]) 0 ∧
    parseExpression looseBraces 0 = parseExpression (looseBraces ++ [⟨.eof, "", 0⟩]) 0 := by
  obtain ⟨⟨tree, c, runs, -, -, ended, -⟩, -, ⟨starts, -⟩, goesOn, loops, -, unended⟩ :=
    parse_terminates looseBraces 0
  obtain ⟨-, -, -, -, -, behind, -⟩ :=
    parse_terminates (looseBraces ++ ⟨.eof, "", 1⟩ :: looseBraces) 0
  exact ⟨⟨tree, c, runs 7 (by decide), ended⟩, (goesOn (.methods 3 3) starts).2.2,
    loops (by decide), (behind looseBraces _ looseBraces rfl (by decide) rfl).1,
    (unended (by decide)).2⟩

end Lox.Grammar
