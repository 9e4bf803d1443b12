import Lox.Proofs.Grammar.Completeness.Expression
import Lox.Proofs.Grammar.Soundness.Statement

/-!
# Programs that are derived are read

What is derived with every `else` at the nearest `if` is read without a fault, and as the derived
trees up to identities (`takes_program`).
-/

namespace Lox.Grammar

open EStateM (Result)

/-! ### First tokens -/

theorem exprStmt_starts {ts : List Token} {s : Stmt} (h : Ebnf.ExprStmt ts s) :
    ∃ t us, ts = t :: us ∧ t.kind ∉ nonStarters := by
  obtain ⟨derived, -⟩ := h
  obtain ⟨t, us, rfl, other⟩ := expression_starts derived
  exact ⟨t, _, rfl, other⟩

/-- The kinds of token that start no declaration, as far as the rules decide by them. -/
def bodyEnders : List Kind := [.symbol .rightBrace, .keyword .else]

theorem statement_starts {dangling : Prop} {inLoop isOpen : Bool} {ts : List Token} {s : Stmt}
    (h : Ebnf.Statement dangling inLoop isOpen ts s) :
    ∃ t us, ts = t :: us ∧ t.kind ∉ bodyEnders ++ declarationOpeners := by
  cases h with
  | expression derived =>
    obtain ⟨t, us, rfl, other⟩ := exprStmt_starts derived
    have sub : ∀ k ∈ bodyEnders ++ declarationOpeners, k ∈ nonStarters := by decide
    exact ⟨t, us, rfl, fun mem => other (sub _ mem)⟩
  | «for» isFor => exact ⟨_, _, rfl, isFor ▸ by decide⟩
  | ifThen isIf => exact ⟨_, _, rfl, isIf ▸ by decide⟩
  | ifElse isIf => exact ⟨_, _, rfl, isIf ▸ by decide⟩
  | print isPrint => exact ⟨_, _, rfl, isPrint ▸ by decide⟩
  | «return» isReturn => exact ⟨_, _, rfl, isReturn ▸ by decide⟩
  | «while» isWhile => exact ⟨_, _, rfl, isWhile ▸ by decide⟩
  | «break» isBreak => exact ⟨_, _, rfl, isBreak ▸ by decide⟩
  | block isLeft => exact ⟨_, _, rfl, isLeft ▸ by decide⟩

theorem varDecl_starts {ts : List Token} {s : Stmt} (h : Ebnf.VarDecl ts s) :
    ∃ t us, ts = t :: us ∧ t.kind = .keyword .var := by
  cases h with
  | bare isVar => exact ⟨_, _, rfl, isVar⟩
  | initialized isVar => exact ⟨_, _, rfl, isVar⟩

theorem declaration_starts {dangling : Prop} {inLoop : Bool} {ts : List Token} {s : Stmt}
    (h : Ebnf.Declaration dangling inLoop ts s) : ∃ t us, ts = t :: us ∧ t.kind ∉ bodyEnders := by
  cases h with
  | «class» isClass => exact ⟨_, _, rfl, isClass ▸ by decide⟩
  | function isFun => exact ⟨_, _, rfl, isFun ▸ by decide⟩
  | var derived =>
    obtain ⟨t, us, rfl, isVar⟩ := varDecl_starts derived
    exact ⟨t, us, rfl, isVar ▸ by decide⟩
  | statement derived =>
    obtain ⟨t, us, rfl, other⟩ := statement_starts derived
    exact ⟨t, us, rfl, fun mem => other (List.mem_append_left _ mem)⟩

/-! ### Parts of statements -/

theorem stops_closer {t : Token} {rest : List Token} {k : Kind} (isKind : t.kind = k)
    (closes : k ∈ [Kind.symbol .rightParen, .symbol .comma, .symbol .semicolon]) :
    Stops expressionExtenders (t :: rest) :=
  stops_cons (isKind ▸ closers_not_extend k closes)

theorem takes_expressionStatement {fuel : Nat} {ts rest : List Token} {s : Stmt}
    (h : Ebnf.ExprStmt ts s) (room : ts.length + rest.length < fuel) :
    Takes (expressionStatement fuel) ts rest fun s' => s'.unnumbered = s.unnumbered := by
  obtain ⟨derived, isStop⟩ := h
  simp only [List.length_append, List.length_singleton] at room
  refine ((takes_expression fuel).takes derived (stops_closer isStop (by simp))
    (by simp; omega)).bind fun e same => Takes.expecting isStop (.pure ?_)
  rw [Stmt.unnumbered, Stmt.unnumbered, same]

theorem takes_optionalExpression {fuel : Nat} {ts rest : List Token} {stop : Token} {k : Kind}
    {o : Option Expr} (h : Ebnf.ExpressionOption ts o) (isStop : stop.kind = k)
    (closes : k ∈ [Kind.symbol .rightParen, .symbol .semicolon])
    (room : ts.length + (stop :: rest).length < fuel) :
    Takes (optionalExpression fuel k) ts (stop :: rest) fun o' =>
      o'.map Expr.unnumbered = o.map Expr.unnumbered := by
  cases h with
  | none => exact Takes.seeing isStop rfl (.pure rfl)
  | some derived =>
    have sub : ∀ k ∈ [Kind.symbol .rightParen, .symbol .semicolon],
      k ∈ [Kind.symbol .rightParen, .symbol .comma, .symbol .semicolon] := by decide
    obtain ⟨t, us, split, other⟩ := expression_starts derived
    have starts : Stops [k] (ts ++ stop :: rest) := by
      subst split
      refine stops_cons fun mem => other ?_
      rw [List.mem_singleton.1 mem]
      have sub : ∀ k ∈ [Kind.symbol .rightParen, .symbol .semicolon], k ∈ nonStarters := by decide
      exact sub k closes
    exact Takes.missing starts (Takes.some
      ((takes_expression fuel).takes derived (stops_closer isStop (sub k closes)) room))

theorem takes_varDeclaration {fuel : Nat} {keyword : Token} {ts rest : List Token} {s : Stmt}
    (h : Ebnf.VarDecl (keyword :: ts) s) (room : ts.length + rest.length < fuel) :
    Takes (varDeclaration fuel) ts rest fun s' => s'.unnumbered = s.unnumbered := by
  cases h with
  | bare _ isName isStop =>
    refine Takes.expecting isName (Takes.declining (stops_cons (by simp [isStop])) ?_)
    exact Takes.expecting isStop (.pure rfl)
  | initialized _ isName isEqual derived isStop =>
    simp only [List.length_cons, List.length_append] at room
    refine Takes.expecting isName (Takes.accepting (by simp [isEqual]) ?_)
    refine (Takes.some ((takes_expression fuel).takes derived (stops_closer isStop (by simp))
      (by simp; omega))).bind fun initializer same => Takes.expecting isStop (.pure ?_)
    rw [Stmt.unnumbered, Stmt.unnumbered, same]

theorem takes_forInitializer {fuel : Nat} {ts rest : List Token} {o : Option Stmt}
    (h : Ebnf.ForInitializer ts o) (room : ts.length + rest.length < fuel) :
    Takes (forInitializer fuel) ts rest fun o' =>
      o'.map Stmt.unnumbered = o.map Stmt.unnumbered := by
  cases h with
  | none isStop => exact Takes.accepting (by simp [isStop]) (.pure rfl)
  | var derived =>
    obtain ⟨t, us, rfl, isVar⟩ := varDecl_starts derived
    simp only [List.length_cons] at room
    refine Takes.declining (stops_cons (by simp [isVar])) (Takes.accepting (by simp [isVar]) ?_)
    exact Takes.some (takes_varDeclaration derived (by omega))
  | expression derived =>
    obtain ⟨t, us, rfl, other⟩ := exprStmt_starts derived
    have noStop : t.kind ∉ [Kind.symbol .semicolon] := fun mem =>
      other (by rw [List.mem_singleton.1 mem]; decide)
    have noVar : t.kind ∉ [Kind.keyword .var] := fun mem =>
      other (by rw [List.mem_singleton.1 mem]; decide)
    refine Takes.declining (stops_cons noStop) (Takes.declining (stops_cons noVar) ?_)
    exact Takes.some (takes_expressionStatement derived room)

theorem forTree_unnumbered {o o' : Option Stmt} {c c' i i' : Option Expr} {b b' : Stmt}
    (initializer : o.map Stmt.unnumbered = o'.map Stmt.unnumbered)
    (condition : c.map Expr.unnumbered = c'.map Expr.unnumbered)
    (increment : i.map Expr.unnumbered = i'.map Expr.unnumbered)
    (body : b.unnumbered = b'.unnumbered) :
    (Ebnf.forTree o c i b).unnumbered = (Ebnf.forTree o' c' i' b').unnumbered := by
  cases o <;> cases o' <;> cases c <;> cases c' <;> cases i <;> cases i' <;>
    simp_all [Ebnf.forTree, Stmt.unnumbered, Stmt.unnumberedAll, Expr.unnumbered]

/-! ### Statements -/

/-- The rules that statements nest through take what is derived, if fewer than `bound` tokens are
there. An open statement is not taken before an `else`. -/
structure Nested.Complete (n : Nested State) (bound : Nat) : Prop where
  statement : ∀ {inLoop isOpen ts s rest}, Ebnf.Statement False inLoop isOpen ts s →
    (isOpen = true → Stops [.keyword .else] rest) → ts.length + rest.length < bound →
    Takes (n.statement inLoop) ts rest fun s' => s'.unnumbered = s.unnumbered
  block : ∀ {inLoop ts ss right rest}, Ebnf.Body False inLoop ts ss →
    right.kind = .symbol .rightBrace → (ts ++ [right]).length + rest.length < bound →
    Takes (n.block inLoop) (ts ++ [right]) rest fun ss' =>
      Stmt.unnumberedAll ss' = Stmt.unnumberedAll ss

theorem Nested.Complete.mono {n : Nested State} {bound less : Nat} (h : n.Complete bound)
    (le : less ≤ bound) : n.Complete less :=
  ⟨fun derived nearest room => h.statement derived nearest (Nat.lt_of_lt_of_le room le),
    fun derived isRight room => h.block derived isRight (Nat.lt_of_lt_of_le room le)⟩

theorem ite_unnumbered {c c' : Expr} {t t' : Stmt} {o o' : Option Stmt}
    (condition : c.unnumbered = c'.unnumbered) (thenBranch : t.unnumbered = t'.unnumbered)
    (elseBranch : o.map Stmt.unnumbered = o'.map Stmt.unnumbered) :
    (Stmt.ite c t o).unnumbered = (Stmt.ite c' t' o').unnumbered := by
  cases o <;> cases o' <;> simp_all [Stmt.unnumbered]

section Statements

variable {n : Nested State} {bound : Nat} (h : n.Complete bound)

include h

theorem takes_statement {inLoop isOpen : Bool} {ts rest : List Token} {s : Stmt}
    (derived : Ebnf.Statement False inLoop isOpen ts s)
    (nearest : isOpen = true → Stops [.keyword .else] rest)
    (room : ts.length + rest.length < bound + 1) :
    Takes (statement n (bound + 1) inLoop) ts rest fun s' => s'.unnumbered = s.unnumbered := by
  cases derived with
  | expression derived =>
    obtain ⟨t, us, split, other⟩ := exprStmt_starts derived
    have sub : ∀ k ∈ statementOpeners, k ∈ nonStarters := by decide
    have follows : Stops statementOpeners (ts ++ rest) :=
      split ▸ stops_cons fun mem => other (sub _ mem)
    exact Takes.declining follows (takes_expressionStatement derived room)
  | «for» isFor isOpening first second isStop third isClosing body =>
    simp only [List.length_append, List.length_cons] at room
    apply Takes.accepting (isFor ▸ by decide)
    simp only [isFor]
    refine Takes.expecting isOpening ((takes_forInitializer first (by simp; omega)).bind
      fun initializer sameInitializer => ?_)
    refine (takes_optionalExpression second isStop (by simp) (by simp; omega)).bind
      fun condition sameCondition => Takes.expecting isStop ?_
    refine (takes_optionalExpression third isClosing (by simp) (by simp; omega)).bind
      fun increment sameIncrement => Takes.expecting isClosing ?_
    refine (h.statement body nearest (by omega)).last fun body sameBody => .pure ?_
    rw [forLoop_eq_forTree]
    exact forTree_unnumbered sameInitializer sameCondition sameIncrement sameBody
  | ifThen isIf isOpening first isClosing body =>
    simp only [List.length_append, List.length_cons] at room
    apply Takes.accepting (isIf ▸ by decide)
    simp only [isIf]
    refine Takes.expecting isOpening (((takes_expression (bound + 1)).takes first
      (stops_closer isClosing (by simp)) (by simp; omega)).bind fun c same =>
      Takes.expecting isClosing ?_)
    refine (h.statement body (fun _ => nearest rfl) (by omega)).last fun thenBranch sameThen =>
      Takes.declining (nearest rfl) (.pure ?_)
    exact ite_unnumbered same sameThen rfl
  | ifElse isIf isOpening first isClosing body closed isElse other =>
    simp only [List.length_append, List.length_cons] at room
    apply Takes.accepting (isIf ▸ by decide)
    simp only [isIf]
    refine Takes.expecting isOpening (((takes_expression (bound + 1)).takes first
      (stops_closer isClosing (by simp)) (by simp; omega)).bind fun c same =>
      Takes.expecting isClosing ?_)
    refine (h.statement body (fun isOpen => (closed isOpen).elim) (by simp; omega)).bind
      fun thenBranch sameThen => Takes.accepting (by simp [isElse]) ?_
    refine (Takes.some (h.statement other nearest (by omega))).last
      fun elseBranch sameElse => .pure ?_
    exact ite_unnumbered same sameThen sameElse
  | print isPrint first isStop =>
    simp only [List.length_append, List.length_cons, List.length_nil] at room
    apply Takes.accepting (isPrint ▸ by decide)
    simp only [isPrint]
    refine ((takes_expression (bound + 1)).takes first (stops_closer isStop (by simp))
      (by simp; omega)).bind fun e same => Takes.expecting isStop (.pure ?_)
    rw [Stmt.unnumbered, Stmt.unnumbered, same]
  | «return» isReturn first isStop =>
    simp only [List.length_append, List.length_cons, List.length_nil] at room
    apply Takes.accepting (isReturn ▸ by decide)
    simp only [isReturn]
    refine (takes_optionalExpression first isStop (by simp) (by simp; omega)).bind fun value same =>
      Takes.expecting isStop (.pure ?_)
    rw [Stmt.unnumbered, Stmt.unnumbered, same]
  | «while» isWhile isOpening first isClosing body =>
    simp only [List.length_append, List.length_cons] at room
    apply Takes.accepting (isWhile ▸ by decide)
    simp only [isWhile]
    refine Takes.expecting isOpening (((takes_expression (bound + 1)).takes first
      (stops_closer isClosing (by simp)) (by simp; omega)).bind fun c same =>
      Takes.expecting isClosing ?_)
    refine (h.statement body nearest (by omega)).last fun body sameBody => .pure ?_
    rw [Stmt.unnumbered, Stmt.unnumbered, same, sameBody]
  | «break» isBreak isStop =>
    apply Takes.accepting (isBreak ▸ by decide)
    simp only [isBreak]
    exact Takes.expecting isStop (.pure rfl)
  | block isLeft body isRight =>
    simp only [List.length_cons] at room
    apply Takes.accepting (isLeft ▸ by decide)
    simp only [isLeft]
    apply Takes.map (h.block body isRight (by omega))
    intro ss same
    rw [Stmt.unnumbered, Stmt.unnumbered, same]

/-! ### Declarations -/

theorem takes_routine (r : Routine) {ts rest : List Token} {d : FunctionDecl}
    (derived : Ebnf.Function (Ebnf.Body False false) ts d) {fuel : Nat}
    (room : ts.length + rest.length < bound + 1) (fuelled : ts.length + rest.length < fuel) :
    Takes (routine r n fuel) ts rest fun d' => d'.unnumbered = d.unnumbered := by
  obtain ⟨isName, isOpening, listing, isClosing, isLeft, body, isRight⟩ := derived
  simp only [List.length_append, List.length_cons, List.length_nil] at room fuelled
  have parameter : ItemTaken (expect .identifier .expectParameterName) id Ebnf.Identifier []
      (bound + 1) := by
    intro ts t rest named _ _
    obtain ⟨isName⟩ := named
    rw [← bind_pure (expect _ _)]
    exact Takes.expecting isName (.pure rfl)
  have starts : ∀ {ts t}, Ebnf.Identifier ts t →
      ∃ t us, ts = t :: us ∧ t.kind ≠ .symbol .rightParen := by
    intro _ _ identifier
    obtain ⟨isName⟩ := identifier
    exact ⟨_, _, rfl, by simp [isName]⟩
  refine Takes.expecting isName (Takes.expecting isOpening ?_)
  refine (takes_listed parameter (by simp) (by simp) starts .tooManyParameters listing isClosing
    (by simp; omega) (by simp; omega)).bind fun params same => Takes.expecting isClosing ?_
  refine Takes.expecting isLeft ((h.block body isRight (by simp; omega)).last
    fun body sameBody => .pure ?_)
  obtain rfl : params = _ := by simpa using same
  rw [FunctionDecl.unnumbered, FunctionDecl.unnumbered, sameBody]

theorem takes_methods {ts rest : List Token} {right : Token} {ds : List FunctionDecl}
    (derived : Ebnf.Functions (Ebnf.Body False false) ts ds)
    (isRight : right.kind = .symbol .rightBrace) {fuel : Nat}
    (room : ts.length + (right :: rest).length < bound + 1)
    (fuelled : ts.length + (right :: rest).length < fuel) :
    Takes (methods n fuel) ts (right :: rest) fun ds' =>
      FunctionDecl.unnumberedAll ds' = FunctionDecl.unnumberedAll ds := by
  induction derived generalizing fuel with
  | nil =>
    obtain ⟨fuel, rfl⟩ := Nat.exists_eq_add_one_of_ne_zero (n := fuel) (by omega)
    exact Takes.seeing isRight rfl (Takes.ending rfl (.pure rfl))
  | cons first others ih =>
    obtain ⟨fuel, rfl⟩ := Nat.exists_eq_add_one_of_ne_zero (n := fuel) (by omega)
    have derived := first
    obtain ⟨isName⟩ := first
    simp only [List.length_append, List.length_cons, List.length_nil] at room fuelled
    refine Takes.missing (stops_cons (by simp [isName])) (Takes.ending rfl ?_)
    refine (takes_routine h .method derived (by simp; omega) (by simp; omega)).bind
      fun d same => (ih (by simp; omega) (by simp; omega)).last fun ds sameOthers => .pure ?_
    rw [FunctionDecl.unnumberedAll, FunctionDecl.unnumberedAll, same, sameOthers]

omit h in
theorem takes_superclass? {ts rest : List Token} {left : Token} {o : Option Expr}
    (derived : Ebnf.Superclass ts o) (isLeft : left.kind = .symbol .leftBrace) :
    Takes superclass? ts (left :: rest) fun o' =>
      o'.map Expr.unnumbered = o.map Expr.unnumbered := by
  cases derived with
  | none => exact Takes.declining (stops_cons (by simp [isLeft])) (.pure rfl)
  | some isLess isName =>
    refine Takes.accepting (by simp [isLess]) (Takes.expecting isName ?_)
    exact Takes.numbering fun id => .pure rfl

theorem takes_declarationOrFail {inLoop : Bool} {ts rest : List Token} {s : Stmt}
    (derived : Ebnf.Declaration False inLoop ts s) (follows : Stops [.keyword .else] rest)
    (room : ts.length + rest.length < bound + 1) :
    Takes (declarationOrFail n (bound + 1) inLoop) ts rest fun s' =>
      s'.unnumbered = s.unnumbered := by
  cases derived with
  | «class» isClass isName head isLeft body isRight =>
    simp only [List.length_append, List.length_cons, List.length_nil] at room
    apply Takes.accepting (isClass ▸ by decide)
    simp only [isClass]
    refine Takes.expecting isName ((takes_superclass? head isLeft).bind
      fun superclass sameHead => Takes.expecting isLeft ?_)
    refine (takes_methods h body isRight (by simp; omega) (by simp; omega)).bind
      fun methods same => Takes.expecting isRight (.pure ?_)
    rw [Stmt.unnumbered, Stmt.unnumbered, sameHead, same]
  | function isFun routine =>
    simp only [List.length_cons] at room
    apply Takes.accepting (isFun ▸ by decide)
    simp only [isFun]
    apply Takes.map (takes_routine h .function routine (by omega) (by omega))
    intro d same
    rw [Stmt.unnumbered, Stmt.unnumbered, same]
  | var derived =>
    obtain ⟨t, us, rfl, isVar⟩ := varDecl_starts derived
    simp only [List.length_cons] at room
    apply Takes.accepting (isVar ▸ by decide)
    simp only [isVar]
    exact takes_varDeclaration derived (by omega)
  | statement derived =>
    obtain ⟨t, us, split, other⟩ := statement_starts derived
    have starts : Stops declarationOpeners (ts ++ rest) :=
      split ▸ stops_cons fun mem => other (List.mem_append_right _ mem)
    exact Takes.declining starts (takes_statement h derived (fun _ => follows) room)

theorem takes_declaration {inLoop : Bool} {ts rest : List Token} {s : Stmt}
    (derived : Ebnf.Declaration False inLoop ts s) (follows : Stops [.keyword .else] rest)
    (room : ts.length + rest.length < bound + 1) :
    Takes (declaration n (bound + 1) inLoop) ts rest fun o =>
      o.map Stmt.unnumbered = some s.unnumbered := by
  intro state read
  obtain ⟨o, nextId, run, same⟩ :=
    Takes.some (takes_declarationOrFail h derived follows room) state read
  refine ⟨o, nextId, ?_, same⟩
  show EStateM.tryCatch _ _ state = _
  unfold EStateM.tryCatch
  rw [run]

end Statements

/-- Where declarations end: at the token that closes them or, if none does, at the end. -/
def Ended (closer : Option Kind) (rest : List Token) : Prop :=
  closer.elim (rest = []) fun k => k = .symbol .rightBrace ∧ ∃ t us, rest = t :: us ∧ t.kind = k

theorem ended_follows {closer : Option Kind} {rest : List Token} (h : Ended closer rest) :
    Stops [.keyword .else] rest := by
  cases closer with
  | none =>
    obtain rfl : rest = [] := h
    simp [Stops]
  | some k =>
    obtain ⟨rfl, t, us, rfl, isBrace⟩ := h
    exact stops_cons (by simp [isBrace])

theorem body_follows {dangling : Prop} {inLoop : Bool} {ts rest : List Token} {ss : List Stmt}
    (h : Ebnf.Body dangling inLoop ts ss) (follows : Stops [.keyword .else] rest) :
    Stops [.keyword .else] (ts ++ rest) := by
  cases h with
  | nil => exact follows
  | cons first =>
    obtain ⟨t, us, rfl, other⟩ := declaration_starts first
    exact stops_cons fun mem => other (by rw [List.mem_singleton.1 mem]; decide)

/-- One round of `declarations`, once it is known whether the closing token is next. -/
theorem takes_round {one : Rule (Option Stmt)} {closer : Option Kind} {fuel : Nat}
    {ts rest : List Token} {P : List Stmt → Prop} (ended : Ended closer rest)
    (starts : ts ≠ [] → Stops [.symbol .rightBrace] (ts ++ rest))
    (h : Takes (if ts = [] then (return [] : Rule (List Stmt)) else do
      match ← one with
      | some s => return s :: (← declarations closer one fuel)
      | none => declarations closer one fuel) ts rest P) :
    Takes (declarations closer one (fuel + 1)) ts rest P := by
  by_cases empty : ts = []
  · subst empty
    rw [if_pos rfl] at h
    cases closer with
    | none =>
      obtain rfl : rest = [] := ended
      exact Takes.skip (a := false) (Takes.ending rfl h)
    | some k =>
      obtain ⟨-, t, us, rfl, isCloser⟩ := ended
      exact Takes.seeing isCloser rfl (Takes.ending rfl h)
  · rw [if_neg empty] at h
    have nonempty : (ts ++ rest).isEmpty = false := by simp [empty]
    cases closer with
    | none => exact Takes.skip (a := false) (Takes.ending nonempty h)
    | some k =>
      obtain ⟨rfl, -⟩ := ended
      exact Takes.missing (starts empty) (Takes.ending nonempty h)

theorem takes_declarations {inLoop : Bool} {one : Rule (Option Stmt)} {bound : Nat}
    (h : ∀ {ts s rest}, Ebnf.Declaration False inLoop ts s → Stops [.keyword .else] rest →
      ts.length + rest.length < bound →
      Takes one ts rest fun o => o.map Stmt.unnumbered = some s.unnumbered)
    {closer : Option Kind} {fuel : Nat} {ts rest : List Token} {ss : List Stmt}
    (derived : Ebnf.Body False inLoop ts ss) (ended : Ended closer rest)
    (room : ts.length + rest.length < bound) (fuelled : ts.length + rest.length < fuel) :
    Takes (declarations closer one fuel) ts rest fun ss' =>
      Stmt.unnumberedAll ss' = Stmt.unnumberedAll ss := by
  induction fuel generalizing ts ss with
  | zero => exact absurd fuelled (Nat.not_lt_zero _)
  | succ fuel ih =>
    cases derived with
    | nil =>
      apply takes_round ended (absurd rfl)
      rw [if_pos rfl]
      exact .pure rfl
    | cons first others =>
      obtain ⟨t, us, split, other⟩ := declaration_starts first
      subst split
      simp only [List.length_append, List.length_cons] at room fuelled
      refine takes_round ended (fun _ => stops_cons fun mem => other ?_) ?_
      · rw [List.mem_singleton.1 mem]
        decide
      · rw [if_neg (by simp)]
        apply (h first (body_follows others (ended_follows ended)) (by simp; omega)).bind
        intro o taken
        obtain ⟨s, rfl, same⟩ := Option.map_eq_some_iff.1 taken
        refine (ih others (by omega) (by omega)).last fun ss sameOthers => .pure ?_
        rw [Stmt.unnumberedAll, Stmt.unnumberedAll, same, sameOthers]

theorem nested_complete (fuel : Nat) : (nested fuel).Complete fuel := by
  induction fuel with
  | zero => exact ⟨fun _ _ room => absurd room (Nat.not_lt_zero _),
      fun _ _ room => absurd room (Nat.not_lt_zero _)⟩
  | succ fuel ih =>
    refine ⟨fun derived nearest room => takes_statement ih derived nearest room,
      @fun inLoop ts ss right rest derived isRight room => ?_⟩
    simp only [List.length_append, List.length_singleton] at room
    have ended : Ended (some (.symbol .rightBrace)) (right :: rest) :=
      ⟨rfl, right, rest, rfl, isRight⟩
    refine (takes_declarations (fun derived follows room => takes_declaration ih derived follows room)
      derived ended (by simp; omega) (by simp; omega)).bind fun ss same =>
      Takes.expecting isRight (.pure same)

/-- What is derived as a program with every `else` at the nearest `if` is read as that program. -/
theorem takes_program {ts : List Token} {ss : List Stmt} (derived : Ebnf.Program False ts ss)
    {fuel : Nat} (room : ts.length < fuel + 1) :
    Takes (program (fuel + 1)) ts [] fun ss' => Stmt.unnumberedAll ss' = Stmt.unnumberedAll ss := by
  have complete := (nested_complete (fuel + 1)).mono (Nat.le_succ fuel)
  have ended : Ended none [] := rfl
  exact takes_declarations (fun derived follows room => takes_declaration complete derived follows
    room) derived ended room room

end Lox.Grammar
