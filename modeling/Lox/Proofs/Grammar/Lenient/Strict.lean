import Lox.Proofs.Grammar.Lenient.Dangling

/-!
# Programs without violations

What the grammar derives, the lenient grammar derives without a violation (`program_lenient`).
-/

namespace Lox.Lenient

open Grammar (LogicOr assignable declaration_starts)

/-! ### Single operands -/

theorem surplus_few {excess : SyntaxFault} {count : Nat} (few : count < 255) (ts : List Token) :
    surplus excess count ts = [] := if_neg (Nat.not_le.2 few)

theorem joined_alone {p : Ebnf.Precedence} {operand : List Token → Bool → List Diagnostic → Prop}
    {ts : List Token} {place : Bool} {vs : List Diagnostic} (h : operand ts place vs) :
    Joined p operand ts place vs := by
  have alone : Joined p operand (ts ++ []) place (vs ++ []) := .mk h .done
  rwa [List.append_nil, List.append_nil] at alone

theorem logicOr_of_unary {unary : List Token → Bool → List Diagnostic → Prop} {ts : List Token}
    {place : Bool} {vs : List Diagnostic} (h : unary ts place vs) : LogicOr unary ts place vs := by
  iterate 6 refine joined_alone ?_
  exact h

theorem assignment_of_logicOr {expression : List Token → List Diagnostic → Prop} {ts : List Token}
    {place : Bool} {vs : List Diagnostic} (h : LogicOr (Unary expression) ts place vs) :
    Assignment expression ts vs := by
  have whole : Assignment expression (ts ++ []) (vs ++ []) := .mk h .none
  rwa [List.append_nil, List.append_nil] at whole

theorem call_of_primary {expression : List Token → List Diagnostic → Prop} {ts : List Token}
    {place : Bool} {vs : List Diagnostic} (h : Primary expression ts place vs) :
    Call expression ts place vs := by
  have whole : Call expression (ts ++ []) place (vs ++ []) := .mk h .done
  rwa [List.append_nil, List.append_nil] at whole

theorem suffixes_property {expression : List Token → List Diagnostic → Prop} {before place : Bool}
    {us : List Token} {vs : List Diagnostic} {dot name : Token}
    (h : Suffixes expression before us place vs) (isDot : dot.kind = .symbol .dot)
    (isName : name.kind = .identifier) :
    Suffixes expression before (us ++ [dot, name]) true vs := by
  induction h with
  | done => exact .property isDot isName .done
  | call isOpening listing isClosing _ ih =>
    rw [List.cons_append, List.append_assoc]
    exact .call isOpening listing isClosing ih
  | property isDot' isName' _ ih => exact .property isDot' isName' ih

/-! ### Expressions -/

theorem items_lenient {α : Type} {item : List Token → α → Prop}
    {item' : List Token → List Diagnostic → Prop} {bound : Nat}
    (h : ∀ {ts a}, ts.length < bound → item ts a → item' ts []) {excess : SyntaxFault} {count : Nat}
    {ts : List Token} {as : List α} (items : Ebnf.Items item ts as) (few : count + as.length ≤ 255)
    (short : ts.length < bound) : Items item' excess count ts [] := by
  induction items generalizing count with
  | one derived =>
    rw [List.length_singleton] at few
    have one : Items item' excess count _ _ := .one (h short derived)
    rwa [surplus_few (by omega)] at one
  | more derived isComma _ ih =>
    simp only [List.length_cons, List.length_append] at few short
    have others : Items item' excess (count + 1) _ [] := ih (by omega) (by omega)
    have more := Items.more (h (by omega) derived) isComma others
    rwa [surplus_few (by omega)] at more

theorem listing_lenient {α : Type} {item : List Token → α → Prop}
    {item' : List Token → List Diagnostic → Prop} {bound : Nat}
    (h : ∀ {ts a}, ts.length < bound → item ts a → item' ts []) {excess : SyntaxFault}
    {ts : List Token} {as : List α} (listing : Ebnf.Listing item ts as) (short : ts.length < bound) :
    Listing item' excess ts [] := by
  cases listing with
  | none => exact .none
  | some items few => exact .some (items_lenient h items (by simpa using few) short)

section Expressions

variable {strict : List Token → Expr → Prop} {lenient : List Token → List Diagnostic → Prop}
  {bound : Nat} (h : ∀ {ts e}, ts.length < bound → strict ts e → lenient ts []) {ts : List Token}
  {e : Expr}

include h

theorem primary_lenient (short : ts.length < bound + 1) (derived : Ebnf.Primary strict ts e) :
    Primary lenient ts (assignable e) [] := by
  cases derived with
  | literal isLiteral => exact .literal isLiteral
  | this isThis => exact .this isThis
  | name isName => exact .name isName
  | group isOpening inner isClosing =>
    simp only [List.length_cons, List.length_append] at short
    exact .group isOpening (h (by omega) inner) isClosing
  | super isSuper isDot isName => exact .super isSuper isDot isName

theorem suffixes_lenient {e' : Expr} (short : ts.length < bound + 1)
    (derived : Ebnf.Suffixes strict e ts e') :
    Suffixes lenient (assignable e) ts (assignable e') [] := by
  induction derived with
  | done => exact .done
  | call isOpening listing isClosing _ ih =>
    simp only [List.length_cons, List.length_append] at short
    exact .call isOpening (listing_lenient h listing (by omega)) isClosing (ih (by omega))
  | property isDot isName _ ih =>
    simp only [List.length_cons] at short
    exact .property isDot isName (ih (by omega))

theorem call_lenient (short : ts.length < bound + 1) (derived : Ebnf.Call strict ts e) :
    Call lenient ts (assignable e) [] := by
  obtain ⟨first, others⟩ := derived
  simp only [List.length_append] at short
  exact .mk (primary_lenient h (by omega) first) (suffixes_lenient h (by omega) others)

theorem unary_lenient (short : ts.length < bound + 1) (derived : Ebnf.Unary strict ts e) :
    Unary lenient ts (assignable e) [] := by
  induction derived with
  | operator isOperator _ ih =>
    simp only [List.length_cons] at short
    exact .operator isOperator (ih (by omega))
  | call call => exact .call (call_lenient h short call)

omit h in
theorem joined_lenient {p : Ebnf.Precedence} {operand : List Token → Expr → Prop}
    {operand' : List Token → Bool → List Diagnostic → Prop}
    (h : ∀ {ts e}, ts.length < bound → operand ts e → operand' ts (assignable e) [])
    (short : ts.length < bound) (derived : Ebnf.Joined p operand ts e) :
    Joined p operand' ts (assignable e) [] := by
  obtain ⟨first, others⟩ := derived
  simp only [List.length_append] at short
  refine .mk (h (by omega) first) ?_
  clear first
  induction others with
  | done => exact .done
  | @more left t ts right us e isOperator derived _ ih =>
    simp only [List.length_cons, List.length_append] at short
    have node : assignable (p.join left t right) = false := by cases p <;> rfl
    have tail := ih (by omega)
    rw [node] at tail
    exact .more isOperator (h (by omega) derived) tail

theorem assignment_lenient (short : ts.length < bound + 1) (derived : Ebnf.Assignment strict ts e) :
    Assignment lenient ts [] := by
  cases derived with
  | name isName isEqual derived =>
    simp only [List.length_cons] at short
    have target : LogicOr (Unary lenient) _ true [] :=
      logicOr_of_unary (.call (call_of_primary (.name isName)))
    exact .mk target (.place isEqual (h (by omega) derived))
  | @property us object dot t equals value e call isDot isName isEqual derived =>
    simp only [List.length_cons, List.length_append] at short
    obtain ⟨first, others⟩ := call
    simp only [List.length_append] at short
    have target := logicOr_of_unary (Unary.call (.mk (primary_lenient h (by omega) first)
      (suffixes_property (suffixes_lenient h (by omega) others) isDot isName)))
    have whole := Assignment.mk target (.place isEqual (h (by omega) derived))
    simpa using whole
  | operation operation =>
    have operand : ∀ {ts e}, ts.length < bound + 1 → Ebnf.Unary strict ts e →
        Unary lenient ts (assignable e) [] :=
      fun short derived => unary_lenient h short derived
    have whole : LogicOr (Unary lenient) ts (assignable e) [] :=
      joined_lenient (joined_lenient (joined_lenient (joined_lenient (joined_lenient
        (joined_lenient operand))))) short operation
    exact assignment_of_logicOr whole

end Expressions

theorem expression_lenient {ts : List Token} {e : Expr} (derived : Ebnf.Expression ts e) :
    Expression ts [] := by
  obtain ⟨bound, short⟩ : ∃ bound, ts.length < bound := ⟨_, Nat.lt_succ_self _⟩
  induction bound generalizing ts e with
  | zero => exact absurd short (Nat.not_lt_zero _)
  | succ bound ih =>
    obtain ⟨assignment⟩ := derived
    exact .mk (assignment_lenient (fun short derived => ih derived short) short assignment)

/-! ### Parts of statements -/

theorem expressionOption_lenient {ts : List Token} {o : Option Expr}
    (derived : Ebnf.ExpressionOption ts o) : ExpressionOption ts [] := by
  cases derived with
  | none => exact .none
  | some derived => exact .some (expression_lenient derived)

theorem exprStmt_lenient {ts : List Token} {s : Stmt} (derived : Ebnf.ExprStmt ts s) :
    ExprStmt ts [] := by
  obtain ⟨derived, isStop⟩ := derived
  exact .mk (expression_lenient derived) isStop

theorem varDecl_lenient {ts : List Token} {s : Stmt} (derived : Ebnf.VarDecl ts s) :
    VarDecl ts [] := by
  cases derived with
  | bare isVar isName isStop => exact .bare isVar isName isStop
  | initialized isVar isName isEqual derived isStop =>
    exact .initialized isVar isName isEqual (expression_lenient derived) isStop

theorem forInitializer_lenient {ts : List Token} {o : Option Stmt}
    (derived : Ebnf.ForInitializer ts o) : ForInitializer ts [] := by
  cases derived with
  | none isStop => exact .none isStop
  | var derived => exact .var (varDecl_lenient derived)
  | expression derived => exact .expression (exprStmt_lenient derived)

theorem ifHead_lenient {keyword opening closing : Token} {ts : List Token} {e : Expr}
    (isIf : keyword.kind = .keyword .if) (isOpening : opening.kind = .symbol .leftParen)
    (derived : Ebnf.Expression ts e) (isClosing : closing.kind = .symbol .rightParen) :
    IfHead (keyword :: opening :: (ts ++ [closing])) [] :=
  .mk isIf isOpening (expression_lenient derived) isClosing

/-! ### Statements and declarations -/

/-- What the grammar derives is derived without a violation, for fewer than `bound` tokens. -/
structure Clean (dangling : Prop) (bound : Nat) : Prop where
  statement : ∀ {inLoop isOpen ts s}, ts.length < bound →
    Ebnf.Statement dangling inLoop isOpen ts s → Statement dangling inLoop isOpen ts []
  body : ∀ {inLoop ts ss}, ts.length < bound → Ebnf.Body dangling inLoop ts ss →
    Body dangling inLoop ts []

section Clean

variable {dangling : Prop} {bound : Nat} (h : Clean dangling bound) {inLoop : Bool}
  {ts : List Token}

include h

theorem statement_lenient {isOpen : Bool} {s : Stmt} (short : ts.length < bound + 1)
    (derived : Ebnf.Statement dangling inLoop isOpen ts s) :
    Statement dangling inLoop isOpen ts [] := by
  cases derived with
  | expression derived => exact .simple (.expression (exprStmt_lenient derived))
  | «for» isFor isOpening first second isStop third isClosing body =>
    simp only [List.length_cons, List.length_append] at short
    have loop : Statement dangling inLoop _ _ _ := .loop (.for isFor isOpening
      (forInitializer_lenient first) (expressionOption_lenient second) isStop
      (expressionOption_lenient third) isClosing) (h.statement (by omega) body)
    simpa using loop
  | ifThen isIf isOpening condition isClosing body =>
    simp only [List.length_cons, List.length_append] at short
    have taken := Statement.ifThen (ifHead_lenient isIf isOpening condition isClosing)
      (h.statement (by omega) body)
    simpa using taken
  | ifElse isIf isOpening condition isClosing body nearest isElse other =>
    simp only [List.length_cons, List.length_append] at short
    have taken := Statement.ifElse (ifHead_lenient isIf isOpening condition isClosing)
      (h.statement (by omega) body) nearest isElse (h.statement (by omega) other)
    simpa using taken
  | print isPrint derived isStop => exact .simple (.print isPrint (expression_lenient derived) isStop)
  | «return» isReturn derived isStop =>
    exact .simple (.return isReturn (expressionOption_lenient derived) isStop)
  | «while» isWhile isOpening condition isClosing body =>
    simp only [List.length_cons, List.length_append] at short
    have loop : Statement dangling inLoop _ _ _ := .loop (.while isWhile isOpening
      (expression_lenient condition) isClosing) (h.statement (by omega) body)
    simpa using loop
  | «break» isBreak isStop => exact .simple (.break isBreak isStop)
  | block isLeft body isRight =>
    simp only [List.length_cons, List.length_append] at short
    exact .block isLeft (h.body (by omega) body) isRight

theorem function_lenient {d : FunctionDecl} (short : ts.length < bound + 1)
    (derived : Ebnf.Function (Ebnf.Body dangling false) ts d) :
    Function (Body dangling false) ts [] := by
  obtain ⟨isName, isOpening, params, isClosing, isLeft, body, isRight⟩ := derived
  simp only [List.length_cons, List.length_append] at short
  have named : ∀ {ts t}, ts.length < bound → Ebnf.Identifier ts t → Identifier ts [] := by
    intro _ _ _ identifier
    obtain ⟨isName⟩ := identifier
    exact .mk isName
  exact .mk isName isOpening (listing_lenient named params (by omega)) isClosing isLeft
    (h.body (by omega) body) isRight

theorem functions_lenient {ds : List FunctionDecl} (short : ts.length < bound + 1)
    (derived : Ebnf.Functions (Ebnf.Body dangling false) ts ds) :
    Functions (Body dangling false) ts [] := by
  induction derived with
  | nil => exact .nil
  | cons first _ ih =>
    simp only [List.length_append] at short
    exact .cons (function_lenient h (by omega) first) (ih (by omega))

theorem declaration_lenient {s : Stmt} (short : ts.length < bound + 1)
    (derived : Ebnf.Declaration dangling inLoop ts s) : Declaration dangling inLoop ts [] := by
  cases derived with
  | «class» isClass isName head isLeft methods isRight =>
    simp only [List.length_cons, List.length_append] at short
    exact .class isClass isName head isLeft (functions_lenient h (by omega) methods) isRight
  | function isFun routine =>
    simp only [List.length_cons] at short
    exact .function isFun (function_lenient h (by omega) routine)
  | var derived => exact .var (varDecl_lenient derived)
  | statement derived => exact .statement (statement_lenient h short derived)

end Clean

theorem clean (dangling : Prop) (bound : Nat) : Clean dangling bound := by
  -- By the number of tokens, since statements and bodies are derived through each other.
  induction bound with
  | zero => exact ⟨fun short => absurd short (Nat.not_lt_zero _),
      fun short => absurd short (Nat.not_lt_zero _)⟩
  | succ bound ih =>
    refine ⟨statement_lenient ih, @fun inLoop ts ss short derived => ?_⟩
    cases derived with
    | nil => exact .nil
    | cons first others =>
      obtain ⟨t, us, rfl, -⟩ := declaration_starts first
      simp only [List.length_append, List.length_cons] at short
      exact .cons (declaration_lenient ih (by simp; omega) first) (ih.body (by omega) others)

/-- A program is derived without a violation. -/
theorem program_lenient {dangling : Prop} {ts : List Token} {ss : List Stmt}
    (derived : Ebnf.Program dangling ts ss) : Program dangling ts [] :=
  (clean dangling (ts.length + 1)).body (Nat.lt_succ_self _) derived

end Lox.Lenient
