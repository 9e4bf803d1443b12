import Lox.Fault
import Lox.Proofs.Grammar.Derivation

/-!
# The grammar with less to ask for

Here anything of the rank of `logic_or` may stand left of an equals sign, `break` may stand where no
loop is around, and lists of arguments and parameters may be of any length. Every nonterminal is a
relation between a list of tokens and the rules of the language that the tokens violate, one
diagnostic a violation: those of an assignment are the violations of its left side, then those of
its value and then its own.
-/

namespace Lox.Lenient

open Ebnf (Precedence literalOf?)

/-! ### Expressions -/

/-- One violation if 255 items came before the one that these tokens are. -/
def surplus (excess : SyntaxFault) (count : Nat) (ts : List Token) : List Diagnostic :=
  if 255 ≤ count then ts.head?.toList.map (.grammatical · excess) else []

/-- `item ( "," item )*` after `count` items. -/
inductive Items (item : List Token → List Diagnostic → Prop) (excess : SyntaxFault) :
    (count : Nat) → List Token → List Diagnostic → Prop
  | one {count ts vs} : item ts vs → Items item excess count ts (surplus excess count ts ++ vs)
  | more {count ts vs comma us ws} : item ts vs → comma.kind = .symbol .comma →
      Items item excess (count + 1) us ws →
      Items item excess count (ts ++ comma :: us) (surplus excess count ts ++ (vs ++ ws))

/-- Any number of items. -/
inductive Listing (item : List Token → List Diagnostic → Prop) (excess : SyntaxFault) :
    List Token → List Diagnostic → Prop
  | none : Listing item excess [] []
  | some {ts vs} : Items item excess 0 ts vs → Listing item excess ts vs

section Expressions

variable (expression : List Token → List Diagnostic → Prop)

/-- `primary → NUMBER | STRING | "true" | "false" | "nil" | "this" | IDENT | "(" expression ")"
| "super" "." IDENT`. From here to `Joined`, `place` tells whether the whole of the tokens is a
variable or an access to a property, which is what may be assigned to. -/
inductive Primary : List Token → (place : Bool) → List Diagnostic → Prop
  | literal {t l} : literalOf? t.kind = some l → Primary [t] false []
  | this {t} : t.kind = .keyword .this → Primary [t] false []
  | name {t} : t.kind = .identifier → Primary [t] true []
  | group {opening ts vs closing} : opening.kind = .symbol .leftParen → expression ts vs →
      closing.kind = .symbol .rightParen → Primary (opening :: (ts ++ [closing])) false vs
  | super {keyword dot method} : keyword.kind = .keyword .super → dot.kind = .symbol .dot →
      method.kind = .identifier → Primary [keyword, dot, method] false []

/-- `( "(" arguments? ")" | "." IDENT )*` after an expression. -/
inductive Suffixes : (before : Bool) → List Token → (place : Bool) → List Diagnostic → Prop
  | done {place} : Suffixes place [] place []
  | call {before opening ts vs closing us place ws} : opening.kind = .symbol .leftParen →
      Listing expression .tooManyArguments ts vs → closing.kind = .symbol .rightParen →
      Suffixes false us place ws → Suffixes before (opening :: (ts ++ closing :: us)) place (vs ++ ws)
  | property {before dot name us place ws} : dot.kind = .symbol .dot → name.kind = .identifier →
      Suffixes true us place ws → Suffixes before (dot :: name :: us) place ws

/-- `call → primary ( "(" arguments? ")" | "." IDENT )*` -/
inductive Call : List Token → (place : Bool) → List Diagnostic → Prop
  | mk {ts before vs us place ws} : Primary expression ts before vs →
      Suffixes expression before us place ws → Call (ts ++ us) place (vs ++ ws)

/-- `unary → ( "!" | "-" ) unary | call` -/
inductive Unary : List Token → (place : Bool) → List Diagnostic → Prop
  | operator {t ts place vs} : t.kind ∈ [Kind.symbol .bang, .symbol .minus] → Unary ts place vs →
      Unary (t :: ts) false vs
  | call {ts place vs} : Call expression ts place vs → Unary ts place vs

/-- `( operator operand )*` after an operand. -/
inductive Joins (p : Precedence) (operand : List Token → Bool → List Diagnostic → Prop) :
    (before : Bool) → List Token → (place : Bool) → List Diagnostic → Prop
  | done {place} : Joins p operand place [] place []
  | more {before t ts right vs us place ws} : t.kind ∈ p.operators → operand ts right vs →
      Joins p operand false us place ws → Joins p operand before (t :: (ts ++ us)) place (vs ++ ws)

/-- `operand ( operator operand )*` -/
inductive Joined (p : Precedence) (operand : List Token → Bool → List Diagnostic → Prop) :
    List Token → (place : Bool) → List Diagnostic → Prop
  | mk {ts before vs us place ws} : operand ts before vs → Joins p operand before us place ws →
      Joined p operand (ts ++ us) place (vs ++ ws)

/-- `( "=" assignment )?`. An equals sign is a violation unless a variable or an access to a property
stands left of it. -/
inductive Assigned : (before : Bool) → List Token → List Diagnostic → Prop
  | none {before} : Assigned before [] []
  | place {equals ts vs} : equals.kind = .symbol .equal → expression ts vs →
      Assigned true (equals :: ts) vs
  | other {equals ts vs} : equals.kind = .symbol .equal → expression ts vs →
      Assigned false (equals :: ts) (vs ++ [.grammatical equals .invalidAssignmentTarget])

/-- `assignment → logic_or ( "=" assignment )?`, with `logic_or → logic_and ( "or" logic_and )*` and
so on down to `factor → unary ( ( "/" | "*" ) unary )*`. -/
inductive Assignment : List Token → List Diagnostic → Prop
  | mk {ts place vs us ws} : Joined .logicOr (Joined .logicAnd (Joined .equality (Joined .comparison
      (Joined .term (Joined .factor (Unary expression)))))) ts place vs →
      Assigned expression place us ws → Assignment (ts ++ us) (vs ++ ws)

end Expressions

/-- `expression → assignment` -/
inductive Expression : List Token → List Diagnostic → Prop
  | mk {ts vs} : Assignment Expression ts vs → Expression ts vs

/-! ### Statements -/

/-- `expression?` -/
inductive ExpressionOption : List Token → List Diagnostic → Prop
  | none : ExpressionOption [] []
  | some {ts vs} : Expression ts vs → ExpressionOption ts vs

/-- `varDecl → "var" IDENT ( "=" expression )? ";"` -/
inductive VarDecl : List Token → List Diagnostic → Prop
  | bare {keyword t stop} : keyword.kind = .keyword .var → t.kind = .identifier →
      stop.kind = .symbol .semicolon → VarDecl [keyword, t, stop] []
  | initialized {keyword t equals ts vs stop} : keyword.kind = .keyword .var →
      t.kind = .identifier → equals.kind = .symbol .equal → Expression ts vs →
      stop.kind = .symbol .semicolon → VarDecl (keyword :: t :: equals :: (ts ++ [stop])) vs

/-- `exprStmt → expression ";"` -/
inductive ExprStmt : List Token → List Diagnostic → Prop
  | mk {ts vs stop} : Expression ts vs → stop.kind = .symbol .semicolon → ExprStmt (ts ++ [stop]) vs

/-- `varDecl | exprStmt | ";"` in the head of a `for`. -/
inductive ForInitializer : List Token → List Diagnostic → Prop
  | none {stop} : stop.kind = .symbol .semicolon → ForInitializer [stop] []
  | var {ts vs} : VarDecl ts vs → ForInitializer ts vs
  | expression {ts vs} : ExprStmt ts vs → ForInitializer ts vs

/-- `"if" "(" expression ")"` -/
inductive IfHead : List Token → List Diagnostic → Prop
  | mk {keyword opening ts vs closing} : keyword.kind = .keyword .if →
      opening.kind = .symbol .leftParen → Expression ts vs → closing.kind = .symbol .rightParen →
      IfHead (keyword :: opening :: (ts ++ [closing])) vs

/-- `"while" "(" expression ")" | "for" "(" initializer expression? ";" expression? ")"` -/
inductive LoopHead : List Token → List Diagnostic → Prop
  | while {keyword opening ts vs closing} : keyword.kind = .keyword .while →
      opening.kind = .symbol .leftParen → Expression ts vs → closing.kind = .symbol .rightParen →
      LoopHead (keyword :: opening :: (ts ++ [closing])) vs
  | for {keyword opening is us cs vs stop ns ws closing} : keyword.kind = .keyword .for →
      opening.kind = .symbol .leftParen → ForInitializer is us → ExpressionOption cs vs →
      stop.kind = .symbol .semicolon → ExpressionOption ns ws → closing.kind = .symbol .rightParen →
      LoopHead (keyword :: opening :: (is ++ (cs ++ stop :: (ns ++ [closing])))) (us ++ (vs ++ ws))

/-- `exprStmt | printStmt | returnStmt | breakStmt`. A `break` that no loop of its function is around
is a violation. -/
inductive Simple : (inLoop : Bool) → List Token → List Diagnostic → Prop
  | expression {inLoop ts vs} : ExprStmt ts vs → Simple inLoop ts vs
  | print {inLoop keyword ts vs stop} : keyword.kind = .keyword .print → Expression ts vs →
      stop.kind = .symbol .semicolon → Simple inLoop (keyword :: (ts ++ [stop])) vs
  | return {inLoop keyword ts vs stop} : keyword.kind = .keyword .return → ExpressionOption ts vs →
      stop.kind = .symbol .semicolon → Simple inLoop (keyword :: (ts ++ [stop])) vs
  | break {keyword stop} : keyword.kind = .keyword .break → stop.kind = .symbol .semicolon →
      Simple true [keyword, stop] []
  | strayBreak {keyword stop} : keyword.kind = .keyword .break → stop.kind = .symbol .semicolon →
      Simple false [keyword, stop] [.grammatical keyword .breakOutsideLoop]

/-- A single token is an identifier. -/
inductive Identifier : List Token → List Diagnostic → Prop
  | mk {t} : t.kind = .identifier → Identifier [t] []

/-- `function → IDENT "(" parameters? ")" block` -/
inductive Function (body : List Token → List Diagnostic → Prop) :
    List Token → List Diagnostic → Prop
  | mk {t opening ps vs closing left us ws right} : t.kind = .identifier →
      opening.kind = .symbol .leftParen → Listing Identifier .tooManyParameters ps vs →
      closing.kind = .symbol .rightParen → left.kind = .symbol .leftBrace → body us ws →
      right.kind = .symbol .rightBrace →
      Function body (t :: opening :: (ps ++ closing :: left :: (us ++ [right]))) (vs ++ ws)

/-- `function*` -/
inductive Functions (body : List Token → List Diagnostic → Prop) :
    List Token → List Diagnostic → Prop
  | nil : Functions body [] []
  | cons {ts vs us ws} : Function body ts vs → Functions body us ws →
      Functions body (ts ++ us) (vs ++ ws)

mutual

/-- `declaration*` in a program, block or function. -/
inductive Body (dangling : Prop) : (inLoop : Bool) → List Token → List Diagnostic → Prop
  | nil {inLoop} : Body dangling inLoop [] []
  | cons {inLoop ts vs us ws} : Declaration dangling inLoop ts vs → Body dangling inLoop us ws →
      Body dangling inLoop (ts ++ us) (vs ++ ws)

/-- `declaration → classDecl | funDecl | varDecl | statement`. A loop outside is not a loop of the
body of a function or method. -/
inductive Declaration (dangling : Prop) :
    (inLoop : Bool) → List Token → List Diagnostic → Prop
  | class {inLoop keyword t ss superclass left ms vs right} : keyword.kind = .keyword .class →
      t.kind = .identifier → Ebnf.Superclass ss superclass → left.kind = .symbol .leftBrace →
      Functions (Body dangling false) ms vs → right.kind = .symbol .rightBrace →
      Declaration dangling inLoop (keyword :: t :: (ss ++ left :: (ms ++ [right]))) vs
  | function {inLoop keyword ts vs} : keyword.kind = .keyword .fun →
      Function (Body dangling false) ts vs → Declaration dangling inLoop (keyword :: ts) vs
  | var {inLoop ts vs} : VarDecl ts vs → Declaration dangling inLoop ts vs
  | statement {inLoop isOpen ts vs} : Statement dangling inLoop isOpen ts vs →
      Declaration dangling inLoop ts vs

/-- `statement → simple | loopHead statement | ifHead statement ( "else" statement )? | block`. A
statement is open if it ends in an `if` without `else`, so that it could take one. -/
inductive Statement (dangling : Prop) :
    (inLoop isOpen : Bool) → List Token → List Diagnostic → Prop
  | simple {inLoop ts vs} : Simple inLoop ts vs → Statement dangling inLoop false ts vs
  | loop {inLoop isOpen hs vs ts ws} : LoopHead hs vs → Statement dangling true isOpen ts ws →
      Statement dangling inLoop isOpen (hs ++ ts) (vs ++ ws)
  | ifThen {inLoop isOpen hs vs ts ws} : IfHead hs vs → Statement dangling inLoop isOpen ts ws →
      Statement dangling inLoop true (hs ++ ts) (vs ++ ws)
  | ifElse {inLoop inner isOpen hs vs ts ws other us xs} : IfHead hs vs →
      Statement dangling inLoop inner ts ws → (inner = true → dangling) →
      other.kind = .keyword .else → Statement dangling inLoop isOpen us xs →
      Statement dangling inLoop isOpen (hs ++ (ts ++ other :: us)) (vs ++ (ws ++ xs))
  | block {inLoop left ts vs right} : left.kind = .symbol .leftBrace → Body dangling inLoop ts vs →
      right.kind = .symbol .rightBrace →
      Statement dangling inLoop false (left :: (ts ++ [right])) vs

end

/-- `program → declaration* EOF`, without the end marker. `dangling` tells, as for the grammar that
asks for more, whether an `else` may follow a branch that could have taken it itself. -/
def Program (dangling : Prop) : List Token → List Diagnostic → Prop := Body dangling false

end Lox.Lenient
