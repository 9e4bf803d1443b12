import Lox.Proofs.Grammar.Completeness.Statement
import Lox.Proofs.Grammar.Lenient.Expression

/-!
# Programs and their violations

What the lenient grammar derives with every `else` at the nearest `if` is read without a declaration
being given up, and its violations are noted (`notes_program`).
-/

namespace Lox.Grammar

/-! ### First tokens -/

section Starts

variable {dangling : Prop} {inLoop isOpen : Bool} {ts : List Token} {vs : List Diagnostic}

theorem lenient_exprStmt_starts (h : Lenient.ExprStmt ts vs) :
    ∃ t us, ts = t :: us ∧ t.kind ∉ nonStarters := by
  obtain ⟨derived, -⟩ := h
  obtain ⟨t, us, rfl, other⟩ := lenient_expression_starts derived
  exact ⟨t, _, rfl, other⟩

theorem lenient_statement_starts (h : Lenient.Statement dangling inLoop isOpen ts vs) :
    ∃ t us, ts = t :: us ∧ t.kind ∉ bodyEnders ++ declarationOpeners := by
  cases h with
  | simple derived =>
    cases derived with
    | expression derived =>
      obtain ⟨t, us, rfl, other⟩ := lenient_exprStmt_starts derived
      have sub : ∀ k ∈ bodyEnders ++ declarationOpeners, k ∈ nonStarters := by decide
      exact ⟨t, us, rfl, fun mem => other (sub _ mem)⟩
    | print isPrint => exact ⟨_, _, rfl, isPrint ▸ by decide⟩
    | «return» isReturn => exact ⟨_, _, rfl, isReturn ▸ by decide⟩
    | «break» isBreak => exact ⟨_, _, rfl, isBreak ▸ by decide⟩
    | strayBreak isBreak => exact ⟨_, _, rfl, isBreak ▸ by decide⟩
  | loop head =>
    cases head with
    | «while» isWhile => exact ⟨_, _, rfl, isWhile ▸ by decide⟩
    | «for» isFor => exact ⟨_, _, rfl, isFor ▸ by decide⟩
  | ifThen head =>
    obtain ⟨isIf⟩ := head
    exact ⟨_, _, rfl, isIf ▸ by decide⟩
  | ifElse head =>
    obtain ⟨isIf⟩ := head
    exact ⟨_, _, rfl, isIf ▸ by decide⟩
  | block isLeft => exact ⟨_, _, rfl, isLeft ▸ by decide⟩

theorem lenient_varDecl_starts (h : Lenient.VarDecl ts vs) :
    ∃ t us, ts = t :: us ∧ t.kind = .keyword .var := by
  cases h with
  | bare isVar => exact ⟨_, _, rfl, isVar⟩
  | initialized isVar => exact ⟨_, _, rfl, isVar⟩

theorem lenient_declaration_starts (h : Lenient.Declaration dangling inLoop ts vs) :
    ∃ t us, ts = t :: us ∧ t.kind ∉ bodyEnders := by
  cases h with
  | «class» isClass => exact ⟨_, _, rfl, isClass ▸ by decide⟩
  | function isFun => exact ⟨_, _, rfl, isFun ▸ by decide⟩
  | var derived =>
    obtain ⟨t, us, rfl, isVar⟩ := lenient_varDecl_starts derived
    exact ⟨t, us, rfl, isVar ▸ by decide⟩
  | statement derived =>
    obtain ⟨t, us, rfl, other⟩ := lenient_statement_starts derived
    exact ⟨t, us, rfl, fun mem => other (List.mem_append_left _ mem)⟩

end Starts

/-! ### Parts of statements -/

section Parts

variable {fuel : Nat} {ts rest : List Token} {vs : List Diagnostic}

theorem notes_closed {closing : Token} {k : Kind} (derived : Lenient.Expression ts vs)
    (isClosing : closing.kind = k) (closes : k ∈ [Kind.symbol .rightParen, .symbol .comma,
      .symbol .semicolon]) (room : ts.length + (closing :: rest).length < fuel) :
    Notes (expression fuel) ts (closing :: rest) vs :=
  notes_expression fuel derived (stops_closer isClosing closes) room

theorem notes_expressionStatement (derived : Lenient.ExprStmt ts vs)
    (room : ts.length + rest.length < fuel) : Notes (expressionStatement fuel) ts rest vs := by
  obtain ⟨derived, isStop⟩ := derived
  simp only [List.length_append, List.length_singleton] at room
  exact (notes_closed derived isStop (by simp) (by simp; omega)).before fun e _ =>
    .expecting isStop (.pure trivial)

theorem notes_optionalExpression {stop : Token} {k : Kind} (derived : Lenient.ExpressionOption ts vs)
    (isStop : stop.kind = k) (closes : k ∈ [Kind.symbol .rightParen, .symbol .semicolon])
    (room : ts.length + (stop :: rest).length < fuel) :
    Notes (optionalExpression fuel k) ts (stop :: rest) vs := by
  cases derived with
  | none => exact .seeing isStop rfl (.pure trivial)
  | some derived =>
    obtain ⟨t, us, split, other⟩ := lenient_expression_starts derived
    have nonStarter : ∀ k ∈ [Kind.symbol .rightParen, .symbol .semicolon], k ∈ nonStarters := by
      decide
    have starts : Stops [k] (ts ++ stop :: rest) := by
      subst split
      exact stops_cons fun mem => other (List.mem_singleton.1 mem ▸ nonStarter k closes)
    have sub : k ∈ [Kind.symbol .rightParen, .symbol .comma, .symbol .semicolon] := by
      simp only [List.mem_cons, List.not_mem_nil, or_false] at closes ⊢
      tauto
    exact .missing starts ((notes_closed derived isStop sub room).map fun _ _ => trivial)

theorem notes_varDeclaration {keyword : Token} (derived : Lenient.VarDecl (keyword :: ts) vs)
    (room : ts.length + rest.length < fuel) : Notes (varDeclaration fuel) ts rest vs := by
  cases derived with
  | bare _ isName isStop =>
    exact .expecting isName (.declining (stops_cons (by simp [isStop]))
      (.expecting isStop (.pure trivial)))
  | initialized _ isName isEqual derived isStop =>
    simp only [List.length_cons, List.length_append] at room
    refine .expecting isName (.accepting (by simp [isEqual]) ?_)
    exact ((notes_closed derived isStop (by simp) (by simp; omega)).map (P := fun _ => True)
      fun _ _ => trivial).before fun initializer _ => .expecting isStop (.pure trivial)

theorem notes_forInitializer (derived : Lenient.ForInitializer ts vs)
    (room : ts.length + rest.length < fuel) : Notes (forInitializer fuel) ts rest vs := by
  cases derived with
  | none isStop => exact .accepting (by simp [isStop]) (.pure trivial)
  | var derived =>
    obtain ⟨t, us, rfl, isVar⟩ := lenient_varDecl_starts derived
    simp only [List.length_cons] at room
    refine .declining (stops_cons (by simp [isVar])) (.accepting (by simp [isVar]) ?_)
    exact (notes_varDeclaration derived (by omega)).map fun _ _ => trivial
  | expression derived =>
    obtain ⟨t, us, rfl, other⟩ := lenient_exprStmt_starts derived
    have noStop : t.kind ∉ [Kind.symbol .semicolon] := fun mem =>
      other (List.mem_singleton.1 mem ▸ by decide)
    have noVar : t.kind ∉ [Kind.keyword .var] := fun mem =>
      other (List.mem_singleton.1 mem ▸ by decide)
    refine .declining (stops_cons noStop) (.declining (stops_cons noVar) ?_)
    exact (notes_expressionStatement derived room).map fun _ _ => trivial

end Parts

/-! ### Statements -/

/-- The rules that statements nest through take what is derived, with its violations, if fewer than
`bound` tokens are there. An open statement is not taken before an `else`. -/
structure Nested.Noted (n : Nested State) (bound : Nat) : Prop where
  statement : ∀ {inLoop isOpen ts vs rest}, Lenient.Statement False inLoop isOpen ts vs →
    (isOpen = true → Stops [.keyword .else] rest) → ts.length + rest.length < bound →
    Notes (n.statement inLoop) ts rest vs
  block : ∀ {inLoop ts vs right rest}, Lenient.Body False inLoop ts vs →
    right.kind = .symbol .rightBrace → (ts ++ [right]).length + rest.length < bound →
    Notes (n.block inLoop) (ts ++ [right]) rest vs

section Heads

variable {n : Nested State} {fuel : Nat} {inLoop : Bool} {hs ts rest : List Token}
  {vs ws : List Diagnostic}

theorem notes_simple (derived : Lenient.Simple inLoop ts vs)
    (room : ts.length + rest.length < fuel) : Notes (statement n fuel inLoop) ts rest vs := by
  cases derived with
  | expression derived =>
    obtain ⟨t, us, split, other⟩ := lenient_exprStmt_starts derived
    have sub : ∀ k ∈ statementOpeners, k ∈ nonStarters := by decide
    have follows : Stops statementOpeners (ts ++ rest) :=
      split ▸ stops_cons fun mem => other (sub _ mem)
    exact .declining follows (notes_expressionStatement derived room)
  | print isPrint derived isStop =>
    simp only [List.length_append, List.length_cons, List.length_nil] at room
    apply Notes.accepting (isPrint ▸ by decide)
    simp only [isPrint]
    exact (notes_closed derived isStop (by simp) (by simp; omega)).before fun e _ =>
      .expecting isStop (.pure trivial)
  | «return» isReturn derived isStop =>
    simp only [List.length_append, List.length_cons, List.length_nil] at room
    apply Notes.accepting (isReturn ▸ by decide)
    simp only [isReturn]
    exact (notes_optionalExpression derived isStop (by simp) (by simp; omega)).before fun value _ =>
      .expecting isStop (.pure trivial)
  | «break» isBreak isStop =>
    apply Notes.accepting (isBreak ▸ by decide)
    simp only [isBreak]
    exact .expecting isStop (.pure trivial)
  | strayBreak isBreak isStop =>
    apply Notes.accepting (isBreak ▸ by decide)
    simp only [isBreak]
    exact .noting (.expecting isStop (.pure trivial))

theorem notes_loop (head : Lenient.LoopHead hs vs)
    (room : hs.length + ts.length + rest.length < fuel)
    (body : Notes (n.statement true) ts rest ws) :
    Notes (statement n fuel inLoop) (hs ++ ts) rest (vs ++ ws) := by
  cases head with
  | «while» isWhile isOpening derived isClosing =>
    simp only [List.length_append, List.length_cons, List.length_nil] at room
    simp only [List.cons_append, List.append_assoc, List.nil_append]
    apply Notes.accepting (isWhile ▸ by decide)
    simp only [isWhile]
    refine .expecting isOpening ((notes_closed derived isClosing (by simp) (by simp; omega)).bind
      fun condition _ => .expecting isClosing ?_)
    exact body.last fun body _ => .pure trivial
  | «for» isFor isOpening first second isStop third isClosing =>
    simp only [List.length_append, List.length_cons, List.length_nil] at room
    simp only [List.cons_append, List.append_assoc, List.nil_append]
    apply Notes.accepting (isFor ▸ by decide)
    simp only [isFor]
    refine .expecting isOpening ((notes_forInitializer first (by simp; omega)).bind
      fun initializer _ => ?_)
    refine (notes_optionalExpression second isStop (by simp) (by simp; omega)).bind
      fun condition _ => .expecting isStop ?_
    refine (notes_optionalExpression third isClosing (by simp) (by simp; omega)).bind
      fun increment _ => .expecting isClosing ?_
    exact body.last fun body _ => .pure trivial

theorem notes_if (head : Lenient.IfHead hs vs) (room : hs.length + ts.length + rest.length < fuel)
    (branches : ∀ condition, Notes (do
      let thenBranch ← n.statement inLoop
      let elseBranch ←
        if (← accept? (.keyword .else)).isSome then some <$> n.statement inLoop else pure none
      return Stmt.ite condition thenBranch elseBranch) ts rest ws) :
    Notes (statement n fuel inLoop) (hs ++ ts) rest (vs ++ ws) := by
  obtain ⟨isIf, isOpening, derived, isClosing⟩ := head
  simp only [List.length_append, List.length_cons, List.length_nil] at room
  simp only [List.cons_append, List.append_assoc, List.nil_append]
  apply Notes.accepting (isIf ▸ by decide)
  simp only [isIf]
  exact .expecting isOpening ((notes_closed derived isClosing (by simp) (by simp; omega)).bind
    fun condition _ => .expecting isClosing (branches condition))

end Heads

section Statements

variable {n : Nested State} {bound : Nat} (h : n.Noted bound)

include h

theorem notes_statement {inLoop isOpen : Bool} {ts rest : List Token} {vs : List Diagnostic}
    (derived : Lenient.Statement False inLoop isOpen ts vs)
    (nearest : isOpen = true → Stops [.keyword .else] rest)
    (room : ts.length + rest.length < bound + 1) :
    Notes (statement n (bound + 1) inLoop) ts rest vs := by
  cases derived with
  | simple derived => exact notes_simple derived room
  | @loop _ _ hs _ _ _ head body =>
    rw [List.length_append] at room
    have short : 0 < hs.length := by cases head <;> exact Nat.succ_pos _
    exact notes_loop head room (h.statement body nearest (by omega))
  | @ifThen _ _ hs _ _ _ head body =>
    rw [List.length_append] at room
    have short : 0 < hs.length := by cases head; exact Nat.succ_pos _
    exact notes_if head room fun condition =>
      (h.statement body (fun _ => nearest rfl) (by omega)).last fun thenBranch _ =>
        .declining (nearest rfl) (.pure trivial)
  | @ifElse _ _ _ hs _ _ _ _ _ _ head body closed isElse other =>
    simp only [List.length_append, List.length_cons] at room
    have short : 0 < hs.length := by cases head; exact Nat.succ_pos _
    refine notes_if head (by simp; omega) fun condition =>
      (h.statement body (fun isOpen => (closed isOpen).elim) (by simp; omega)).bind
        fun thenBranch _ => .accepting (by simp [isElse]) ?_
    exact ((h.statement other nearest (by omega)).map (P := fun _ => True) fun _ _ => trivial).last
      fun elseBranch _ => .pure trivial
  | block isLeft body isRight =>
    simp only [List.length_cons] at room
    apply Notes.accepting (isLeft ▸ by decide)
    simp only [isLeft]
    exact (h.block body isRight (by omega)).map fun _ _ => trivial

/-! ### Declarations -/

theorem notes_routine (r : Routine) {ts rest : List Token} {vs : List Diagnostic}
    (derived : Lenient.Function (Lenient.Body False false) ts vs) {fuel : Nat}
    (room : ts.length + rest.length < bound + 1) (fuelled : ts.length + rest.length < fuel) :
    Notes (routine r n fuel) ts rest vs := by
  obtain ⟨isName, isOpening, listing, isClosing, isLeft, body, isRight⟩ := derived
  simp only [List.length_append, List.length_cons, List.length_nil] at room fuelled
  have parameter : ItemNoted (expect .identifier .expectParameterName) Lenient.Identifier []
      (bound + 1) := by
    intro ts vs rest named _ _
    obtain ⟨isName⟩ := named
    rw [← bind_pure (expect _ _)]
    exact .expecting isName (.pure trivial)
  have starts : ∀ {ts vs}, Lenient.Identifier ts vs →
      ∃ t us, ts = t :: us ∧ t.kind ∉ [Kind.symbol .rightParen] := by
    intro _ _ identifier
    obtain ⟨isName⟩ := identifier
    exact ⟨_, _, rfl, by simp [isName]⟩
  refine .expecting isName (.expecting isOpening ?_)
  refine (notes_listed parameter (by simp) (by simp) starts .tooManyParameters listing isClosing
    (by simp; omega) (by simp; omega)).bind fun params _ => .expecting isClosing ?_
  exact .expecting isLeft ((h.block body isRight (by simp; omega)).last fun body _ => .pure trivial)

theorem notes_methods {ts rest : List Token} {right : Token} {vs : List Diagnostic}
    (derived : Lenient.Functions (Lenient.Body False false) ts vs)
    (isRight : right.kind = .symbol .rightBrace) {fuel : Nat}
    (room : ts.length + (right :: rest).length < bound + 1)
    (fuelled : ts.length + (right :: rest).length < fuel) :
    Notes (methods n fuel) ts (right :: rest) vs := by
  induction derived generalizing fuel with
  | nil =>
    obtain ⟨fuel, rfl⟩ := Nat.exists_eq_add_one_of_ne_zero (n := fuel) (by omega)
    exact .seeing isRight rfl (.ending rfl (.pure trivial))
  | cons first others ih =>
    obtain ⟨fuel, rfl⟩ := Nat.exists_eq_add_one_of_ne_zero (n := fuel) (by omega)
    have derived := first
    obtain ⟨isName⟩ := first
    simp only [List.length_append, List.length_cons, List.length_nil] at room fuelled
    refine .missing (stops_cons (by simp [isName])) (.ending rfl ?_)
    exact (notes_routine h .method derived (by simp; omega) (by simp; omega)).bind
      fun d _ => (ih (by simp; omega) (by simp; omega)).last fun ds _ => .pure trivial

theorem notes_declarationOrFail {inLoop : Bool} {ts rest : List Token} {vs : List Diagnostic}
    (derived : Lenient.Declaration False inLoop ts vs) (follows : Stops [.keyword .else] rest)
    (room : ts.length + rest.length < bound + 1) :
    Notes (declarationOrFail n (bound + 1) inLoop) ts rest vs := by
  cases derived with
  | «class» isClass isName head isLeft body isRight =>
    simp only [List.length_append, List.length_cons, List.length_nil] at room
    apply Notes.accepting (isClass ▸ by decide)
    simp only [isClass]
    refine .expecting isName ((takes_superclass? head isLeft).notes.bind
      fun superclass _ => .expecting isLeft ?_)
    exact (notes_methods h body isRight (by simp; omega) (by simp; omega)).before
      fun methods _ => .expecting isRight (.pure trivial)
  | function isFun routine =>
    simp only [List.length_cons] at room
    apply Notes.accepting (isFun ▸ by decide)
    simp only [isFun]
    exact (notes_routine h .function routine (by omega) (by omega)).map fun _ _ => trivial
  | var derived =>
    obtain ⟨t, us, rfl, isVar⟩ := lenient_varDecl_starts derived
    simp only [List.length_cons] at room
    apply Notes.accepting (isVar ▸ by decide)
    simp only [isVar]
    exact notes_varDeclaration derived (by omega)
  | statement derived =>
    obtain ⟨t, us, split, other⟩ := lenient_statement_starts derived
    have starts : Stops declarationOpeners (ts ++ rest) :=
      split ▸ stops_cons fun mem => other (List.mem_append_right _ mem)
    exact .declining starts (notes_statement h derived (fun _ => follows) room)

theorem notes_declaration {inLoop : Bool} {ts rest : List Token} {vs : List Diagnostic}
    (derived : Lenient.Declaration False inLoop ts vs) (follows : Stops [.keyword .else] rest)
    (room : ts.length + rest.length < bound + 1) :
    Notes (declaration n (bound + 1) inLoop) ts rest vs fun o => o.isSome := by
  intro s read
  obtain ⟨o, nextId, run, some⟩ := (notes_declarationOrFail h derived follows room).map (f := some)
    (P := fun o => o.isSome) (fun _ _ => rfl) s read
  refine ⟨o, nextId, ?_, some⟩
  show EStateM.tryCatch _ _ s = _
  unfold EStateM.tryCatch
  rw [run]

end Statements

theorem lenient_body_follows {dangling : Prop} {inLoop : Bool} {ts rest : List Token}
    {vs : List Diagnostic} (h : Lenient.Body dangling inLoop ts vs)
    (follows : Stops [.keyword .else] rest) : Stops [.keyword .else] (ts ++ rest) := by
  cases h with
  | nil => exact follows
  | cons first =>
    obtain ⟨t, us, rfl, other⟩ := lenient_declaration_starts first
    exact stops_cons fun mem => other (by rw [List.mem_singleton.1 mem]; decide)

/-- One round of `declarations`, once it is known whether the closing token is next. -/
theorem notes_round {one : Rule (Option Stmt)} {closer : Option Kind} {fuel : Nat}
    {ts rest : List Token} {vs : List Diagnostic} (ended : Ended closer rest)
    (starts : ts ≠ [] → Stops [.symbol .rightBrace] (ts ++ rest))
    (h : Notes (if ts = [] then (return [] : Rule (List Stmt)) else do
      match ← one with
      | some s => return s :: (← declarations closer one fuel)
      | none => declarations closer one fuel) ts rest vs) :
    Notes (declarations closer one (fuel + 1)) ts rest vs := by
  by_cases empty : ts = []
  · subst empty
    rw [if_pos rfl] at h
    cases closer with
    | none =>
      obtain rfl : rest = [] := ended
      exact .skip (a := false) (.ending rfl h)
    | some k =>
      obtain ⟨-, t, us, rfl, isCloser⟩ := ended
      exact .seeing isCloser rfl (.ending rfl h)
  · rw [if_neg empty] at h
    have nonempty : (ts ++ rest).isEmpty = false := by simp [empty]
    cases closer with
    | none => exact .skip (a := false) (.ending nonempty h)
    | some k =>
      obtain ⟨rfl, -⟩ := ended
      exact .missing (starts empty) (.ending nonempty h)

theorem notes_declarations {inLoop : Bool} {one : Rule (Option Stmt)} {bound : Nat}
    (h : ∀ {ts vs rest}, Lenient.Declaration False inLoop ts vs → Stops [.keyword .else] rest →
      ts.length + rest.length < bound → Notes one ts rest vs fun o => o.isSome)
    {closer : Option Kind} {fuel : Nat} {ts rest : List Token} {vs : List Diagnostic}
    (derived : Lenient.Body False inLoop ts vs) (ended : Ended closer rest)
    (room : ts.length + rest.length < bound) (fuelled : ts.length + rest.length < fuel) :
    Notes (declarations closer one fuel) ts rest vs := by
  induction fuel generalizing ts vs with
  | zero => exact absurd fuelled (Nat.not_lt_zero _)
  | succ fuel ih =>
    cases derived with
    | nil =>
      apply notes_round ended (absurd rfl)
      rw [if_pos rfl]
      exact .pure trivial
    | cons first others =>
      obtain ⟨t, us, split, other⟩ := lenient_declaration_starts first
      subst split
      simp only [List.length_append, List.length_cons] at room fuelled
      refine notes_round ended (fun _ => stops_cons fun mem => other ?_) ?_
      · rw [List.mem_singleton.1 mem]
        decide
      · rw [if_neg (by simp)]
        refine (h first (lenient_body_follows others (ended_follows ended)) (by simp; omega)).bind
          fun o some => ?_
        obtain ⟨s, rfl⟩ := Option.isSome_iff_exists.1 some
        exact (ih others (by omega) (by omega)).last fun ss _ => .pure trivial

theorem nested_noted (fuel : Nat) : (nested fuel).Noted fuel := by
  induction fuel with
  | zero => exact ⟨fun _ _ room => absurd room (Nat.not_lt_zero _),
      fun _ _ room => absurd room (Nat.not_lt_zero _)⟩
  | succ fuel ih =>
    refine ⟨fun derived nearest room => notes_statement ih derived nearest room,
      @fun inLoop ts vs right rest derived isRight room => ?_⟩
    simp only [List.length_append, List.length_singleton] at room
    have ended : Ended (some (.symbol .rightBrace)) (right :: rest) :=
      ⟨rfl, right, rest, rfl, isRight⟩
    exact (notes_declarations (fun derived follows room => notes_declaration ih derived follows room)
      derived ended (by simp; omega) (by simp; omega)).before fun ss _ =>
      .expecting isRight (.pure trivial)

/-- What is derived as a program with every `else` at the nearest `if` is read to its end, and its
violations are noted. -/
theorem notes_program {ts : List Token} {vs : List Diagnostic}
    (derived : Lenient.Program False ts vs) {fuel : Nat} (room : ts.length < fuel + 1) :
    Notes (program (fuel + 1)) ts [] vs := by
  have inner := nested_noted (fuel + 1)
  have nested : (nested (fuel + 1)).Noted fuel :=
    ⟨fun derived nearest room => inner.statement derived nearest (Nat.lt_succ_of_lt room),
      fun derived isRight room => inner.block derived isRight (Nat.lt_succ_of_lt room)⟩
  have ended : Ended none [] := rfl
  exact notes_declarations (fun derived follows room => notes_declaration nested derived follows
    room) derived ended room room

end Lox.Grammar
