import Lox.Tree

/-!
# The grammar

Every nonterminal is a relation between a list of tokens and the tree that the tokens stand for.
A rule that nests takes the nested nonterminal as a parameter; `Expression` and `Body` tie the knots.
A derivation uses every token once and in order, since a rule splits its tokens and
hands on each part.

The rule for `if` is ambiguous: an `else` may follow a branch that could have taken it itself.
`dangling` tells whether a derivation may do so. With `True` the rules are the plain grammar, with
`False` every `else` belongs to the nearest `if`.
-/

namespace Lox.Ebnf

/-- The nonterminals between `assignment` and `unary`. -/
inductive Precedence
  | logicOr | logicAnd | equality | comparison | term | factor

namespace Precedence

def operators : Precedence → List Kind
  | logicOr => [.keyword .or]
  | logicAnd => [.keyword .and]
  | equality => [.symbol .bangEqual, .symbol .equalEqual]
  | comparison =>
    [.symbol .greater, .symbol .greaterEqual, .symbol .less, .symbol .lessEqual]
  | term => [.symbol .minus, .symbol .plus]
  | factor => [.symbol .slash, .symbol .star]

/-- The node that joins two operands. -/
def join : Precedence → Expr → Token → Expr → Expr
  | logicOr => .logical
  | logicAnd => .logical
  | _ => .binary

end Precedence

def literalOf? : Kind → Option Literal
  | .keyword .true => some (.bool true)
  | .keyword .false => some (.bool false)
  | .keyword .nil => some .nil
  | .number x => some (.number x)
  | .string s => some (.string s)
  | _ => none

/-! ### Expressions -/

/-- `item ( "," item )*` -/
inductive Items {α : Type} (item : List Token → α → Prop) : List Token → List α → Prop
  | one {ts a} : item ts a → Items item ts [a]
  | more {ts a comma us as} : item ts a → comma.kind = .symbol .comma → Items item us as →
      Items item (ts ++ comma :: us) (a :: as)

/-- At most 255 items, possibly none. -/
inductive Listing {α : Type} (item : List Token → α → Prop) : List Token → List α → Prop
  | none : Listing item [] []
  | some {ts as} : Items item ts as → as.length ≤ 255 → Listing item ts as

section Expressions

variable (expression : List Token → Expr → Prop)

/-- `primary → NUMBER | STRING | "true" | "false" | "nil" | "this" | IDENT | "(" expression ")"
| "super" "." IDENT` -/
inductive Primary : List Token → Expr → Prop
  | literal {t l} : literalOf? t.kind = some l → Primary [t] (.literal l)
  | this {t id} : t.kind = .keyword .this → Primary [t] (.this id t)
  | name {t id} : t.kind = .identifier → Primary [t] (.variable id t)
  | group {opening ts e closing} : opening.kind = .symbol .leftParen → expression ts e →
      closing.kind = .symbol .rightParen → Primary (opening :: (ts ++ [closing])) (.group e)
  | super {keyword dot method id} : keyword.kind = .keyword .super → dot.kind = .symbol .dot →
      method.kind = .identifier → Primary [keyword, dot, method] (.super id keyword method)

/-- `( "(" arguments? ")" | "." IDENT )*` after an expression. -/
inductive Suffixes : Expr → List Token → Expr → Prop
  | done {e} : Suffixes e [] e
  | call {e opening ts arguments closing us e'} : opening.kind = .symbol .leftParen →
      Listing expression ts arguments → closing.kind = .symbol .rightParen →
      Suffixes (.call e closing arguments) us e' →
      Suffixes e (opening :: (ts ++ closing :: us)) e'
  | property {e dot name us e'} : dot.kind = .symbol .dot → name.kind = .identifier →
      Suffixes (.get e name) us e' → Suffixes e (dot :: name :: us) e'

/-- `call → primary ( "(" arguments? ")" | "." IDENT )*` -/
inductive Call : List Token → Expr → Prop
  | mk {ts e us e'} : Primary expression ts e → Suffixes expression e us e' → Call (ts ++ us) e'

/-- `unary → ( "!" | "-" ) unary | call` -/
inductive Unary : List Token → Expr → Prop
  | operator {t ts e} : t.kind ∈ [Kind.symbol .bang, .symbol .minus] → Unary ts e →
      Unary (t :: ts) (.unary t e)
  | call {ts e} : Call expression ts e → Unary ts e

/-- `( operator operand )*` after an operand: what came before is the left operand. -/
inductive Joins (p : Precedence) (operand : List Token → Expr → Prop) :
    Expr → List Token → Expr → Prop
  | done {e} : Joins p operand e [] e
  | more {e t ts right us e'} : t.kind ∈ p.operators → operand ts right →
      Joins p operand (p.join e t right) us e' → Joins p operand e (t :: (ts ++ us)) e'

/-- `operand ( operator operand )*`, which groups to the left. -/
inductive Joined (p : Precedence) (operand : List Token → Expr → Prop) : List Token → Expr → Prop
  | mk {ts left us e} : operand ts left → Joins p operand left us e → Joined p operand (ts ++ us) e

/-- `assignment → ( call "." )? IDENT "=" assignment | logic_or`, with
`logic_or → logic_and ( "or" logic_and )*` and so on down to
`factor → unary ( ( "/" | "*" ) unary )*`. -/
inductive Assignment : List Token → Expr → Prop
  | name {t equals ts e id} : t.kind = .identifier → equals.kind = .symbol .equal →
      expression ts e → Assignment (t :: equals :: ts) (.assign id t e)
  | property {ts object dot t equals us e} : Call expression ts object → dot.kind = .symbol .dot →
      t.kind = .identifier → equals.kind = .symbol .equal → expression us e →
      Assignment (ts ++ dot :: t :: equals :: us) (.set object t e)
  | operation {ts e} :
      Joined .logicOr (Joined .logicAnd (Joined .equality (Joined .comparison (Joined .term
        (Joined .factor (Unary expression)))))) ts e →
      Assignment ts e

end Expressions

/-- `expression → assignment` -/
inductive Expression : List Token → Expr → Prop
  | mk {ts e} : Assignment Expression ts e → Expression ts e

/-! ### Statements -/

/-- `expression?` -/
inductive ExpressionOption : List Token → Option Expr → Prop
  | none : ExpressionOption [] none
  | some {ts e} : Expression ts e → ExpressionOption ts (some e)

/-- `varDecl → "var" IDENT ( "=" expression )? ";"` -/
inductive VarDecl : List Token → Stmt → Prop
  | bare {keyword t stop} : keyword.kind = .keyword .var → t.kind = .identifier →
      stop.kind = .symbol .semicolon → VarDecl [keyword, t, stop] (.var t none)
  | initialized {keyword t equals ts e stop} : keyword.kind = .keyword .var →
      t.kind = .identifier → equals.kind = .symbol .equal → Expression ts e →
      stop.kind = .symbol .semicolon →
      VarDecl (keyword :: t :: equals :: (ts ++ [stop])) (.var t (some e))

/-- `exprStmt → expression ";"` -/
inductive ExprStmt : List Token → Stmt → Prop
  | mk {ts e stop} : Expression ts e → stop.kind = .symbol .semicolon →
      ExprStmt (ts ++ [stop]) (.expression e)

/-- `varDecl | exprStmt | ";"` in the head of a `for`. -/
inductive ForInitializer : List Token → Option Stmt → Prop
  | none {stop} : stop.kind = .symbol .semicolon → ForInitializer [stop] none
  | var {ts s} : VarDecl ts s → ForInitializer ts (some s)
  | expression {ts s} : ExprStmt ts s → ForInitializer ts (some s)

/-- The tree of a `for`: `{ initializer; while (condition) { body; increment; } }`, without the
blocks that nothing is added to. A missing condition is `true`. -/
def forTree (initializer : Option Stmt) (condition increment : Option Expr) (body : Stmt) : Stmt :=
  let lap := increment.elim body fun e => .block [body, .expression e]
  let repeated := Stmt.while (condition.getD (.literal (.bool true))) lap
  initializer.elim repeated fun s => .block [s, repeated]

/-- A single token is an identifier. -/
inductive Identifier : List Token → Token → Prop
  | mk {t} : t.kind = .identifier → Identifier [t] t

/-- `function → IDENT "(" parameters? ")" block`. A loop outside is not a loop of the body. -/
inductive Function (body : List Token → List Stmt → Prop) : List Token → FunctionDecl → Prop
  | mk {t opening ps params closing left us ss right} : t.kind = .identifier →
      opening.kind = .symbol .leftParen → Listing Identifier ps params →
      closing.kind = .symbol .rightParen → left.kind = .symbol .leftBrace → body us ss →
      right.kind = .symbol .rightBrace →
      Function body (t :: opening :: (ps ++ closing :: left :: (us ++ [right]))) (.mk t params ss)

/-- `function*` -/
inductive Functions (body : List Token → List Stmt → Prop) : List Token → List FunctionDecl → Prop
  | nil : Functions body [] []
  | cons {ts d us ds} : Function body ts d → Functions body us ds →
      Functions body (ts ++ us) (d :: ds)

/-- `( "<" IDENT )?` -/
inductive Superclass : List Token → Option Expr → Prop
  | none : Superclass [] none
  | some {less t id} : less.kind = .symbol .less → t.kind = .identifier →
      Superclass [less, t] (some (.variable id t))

mutual

/-- `declaration*` in a program, block or function. -/
inductive Body (dangling : Prop) : (inLoop : Bool) → List Token → List Stmt → Prop
  | nil {inLoop} : Body dangling inLoop [] []
  | cons {inLoop ts s us ss} : Declaration dangling inLoop ts s → Body dangling inLoop us ss →
      Body dangling inLoop (ts ++ us) (s :: ss)

/-- `declaration → classDecl | funDecl | varDecl | statement` -/
inductive Declaration (dangling : Prop) : (inLoop : Bool) → List Token → Stmt → Prop
  | class {inLoop keyword t ss superclass left ms methods right} :
      keyword.kind = .keyword .class → t.kind = .identifier → Superclass ss superclass →
      left.kind = .symbol .leftBrace → Functions (Body dangling false) ms methods →
      right.kind = .symbol .rightBrace →
      Declaration dangling inLoop (keyword :: t :: (ss ++ left :: (ms ++ [right])))
        (.class t superclass methods)
  | function {inLoop keyword ts d} : keyword.kind = .keyword .fun →
      Function (Body dangling false) ts d → Declaration dangling inLoop (keyword :: ts) (.function d)
  | var {inLoop ts s} : VarDecl ts s → Declaration dangling inLoop ts s
  | statement {inLoop isOpen ts s} : Statement dangling inLoop isOpen ts s →
      Declaration dangling inLoop ts s

/-- `statement → exprStmt | forStmt | ifStmt | printStmt | returnStmt | whileStmt | breakStmt
| block`. A statement is open if it ends in an `if` without `else`, so that it could take one. -/
inductive Statement (dangling : Prop) : (inLoop isOpen : Bool) → List Token → Stmt → Prop
  | expression {inLoop ts s} : ExprStmt ts s → Statement dangling inLoop false ts s
  | for {inLoop isOpen keyword opening is initializer cs condition stop ns increment closing ts
      body} :
      keyword.kind = .keyword .for → opening.kind = .symbol .leftParen →
      ForInitializer is initializer → ExpressionOption cs condition →
      stop.kind = .symbol .semicolon → ExpressionOption ns increment →
      closing.kind = .symbol .rightParen → Statement dangling true isOpen ts body →
      Statement dangling inLoop isOpen
        (keyword :: opening :: (is ++ (cs ++ stop :: (ns ++ closing :: ts))))
        (forTree initializer condition increment body)
  | ifThen {inLoop isOpen keyword opening cs condition closing ts thenBranch} :
      keyword.kind = .keyword .if → opening.kind = .symbol .leftParen → Expression cs condition →
      closing.kind = .symbol .rightParen → Statement dangling inLoop isOpen ts thenBranch →
      Statement dangling inLoop true (keyword :: opening :: (cs ++ closing :: ts))
        (.ite condition thenBranch none)
  | ifElse {inLoop inner isOpen keyword opening cs condition closing ts thenBranch other us
      elseBranch} :
      keyword.kind = .keyword .if → opening.kind = .symbol .leftParen → Expression cs condition →
      closing.kind = .symbol .rightParen → Statement dangling inLoop inner ts thenBranch →
      (inner = true → dangling) → other.kind = .keyword .else →
      Statement dangling inLoop isOpen us elseBranch →
      Statement dangling inLoop isOpen
        (keyword :: opening :: (cs ++ closing :: (ts ++ other :: us)))
        (.ite condition thenBranch (some elseBranch))
  | print {inLoop keyword ts e stop} : keyword.kind = .keyword .print → Expression ts e →
      stop.kind = .symbol .semicolon →
      Statement dangling inLoop false (keyword :: (ts ++ [stop])) (.print e)
  | return {inLoop keyword ts value stop} : keyword.kind = .keyword .return →
      ExpressionOption ts value → stop.kind = .symbol .semicolon →
      Statement dangling inLoop false (keyword :: (ts ++ [stop])) (.return keyword value)
  | while {inLoop isOpen keyword opening cs condition closing ts body} :
      keyword.kind = .keyword .while → opening.kind = .symbol .leftParen → Expression cs condition →
      closing.kind = .symbol .rightParen → Statement dangling true isOpen ts body →
      Statement dangling inLoop isOpen (keyword :: opening :: (cs ++ closing :: ts))
        (.while condition body)
  | break {keyword stop} : keyword.kind = .keyword .break → stop.kind = .symbol .semicolon →
      Statement dangling true false [keyword, stop] (.break keyword)
  | block {inLoop left ts ss right} : left.kind = .symbol .leftBrace →
      Body dangling inLoop ts ss → right.kind = .symbol .rightBrace →
      Statement dangling inLoop false (left :: (ts ++ [right])) (.block ss)

end

/-- `program → declaration* EOF`, without the end marker. -/
def Program (dangling : Prop) : List Token → List Stmt → Prop := Body dangling false

theorem Body.append {dangling : Prop} {inLoop : Bool} {ts us : List Token} {ss rs : List Stmt}
    (first : Body dangling inLoop ts ss) (second : Body dangling inLoop us rs) :
    Body dangling inLoop (ts ++ us) (ss ++ rs) := by
  induction ss generalizing ts with
  | nil =>
    cases first
    exact second
  | cons s ss ih =>
    cases first with
    | cons one others =>
      rw [List.append_assoc]
      exact .cons one (ih others)

end Lox.Ebnf
