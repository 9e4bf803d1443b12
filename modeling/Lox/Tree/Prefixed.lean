import Lox.Number.Layout
import Lox.Tree

/-!
# Trees in parentheses

Every node is written as one parenthesised list, the operator or the name of the construct first.
Lines, identities and the quotes of strings are left out.
-/

namespace Lox

/-- Texts in parentheses, a space between two of them. -/
def parenthesized (parts : List String) : String := "(" ++ " ".intercalate parts ++ ")"

namespace Literal

def prefixed : Literal → String
  | nil => "nil"
  | bool true => "true"
  | bool false => "false"
  | number x => Number.literal x
  | string s => s

end Literal

namespace Expr

mutual

def prefixed : Expr → String
  | .literal value => value.prefixed
  | .unary operator right => parenthesized [operator.lexeme, right.prefixed]
  | .binary left operator right => parenthesized [operator.lexeme, left.prefixed, right.prefixed]
  | .logical left operator right => parenthesized [operator.lexeme, left.prefixed, right.prefixed]
  | .group inner => parenthesized ["group", inner.prefixed]
  | .variable _ name => name.lexeme
  | .assign _ name value => parenthesized ["=", name.lexeme, value.prefixed]
  | .call callee _ arguments =>
    parenthesized ("call" :: callee.prefixed :: prefixedAll arguments)
  | .get object name => parenthesized [".", object.prefixed, name.lexeme]
  | .set object name value => parenthesized [".=", object.prefixed, name.lexeme, value.prefixed]
  | .this _ _ => "this"
  | .super _ _ method => parenthesized ["super", method.lexeme]

def prefixedAll : List Expr → List String
  | [] => []
  | e :: es => e.prefixed :: prefixedAll es

end

end Expr

/-- The name and the parameter list of a function, closed up. -/
def FunctionDecl.heading (name : Token) (params : List Token) : String :=
  name.lexeme ++ "(" ++ " ".intercalate (params.map Token.lexeme) ++ ")"

mutual

def Stmt.prefixed : Stmt → String
  | .expression e => parenthesized [";", e.prefixed]
  | .print e => parenthesized ["print", e.prefixed]
  | .var name none => parenthesized ["var", name.lexeme]
  | .var name (some e) => parenthesized ["var", name.lexeme, "=", e.prefixed]
  | .block body => parenthesized ("block" :: Stmt.prefixedAll body)
  | .ite condition thenBranch none =>
    parenthesized ["if", condition.prefixed, thenBranch.prefixed]
  | .ite condition thenBranch (some elseBranch) =>
    parenthesized ["if", condition.prefixed, thenBranch.prefixed, elseBranch.prefixed]
  | .while condition body => parenthesized ["while", condition.prefixed, body.prefixed]
  | .break _ => parenthesized ["break"]
  | .function declaration => declaration.prefixed
  | .return _ none => parenthesized ["return"]
  | .return _ (some e) => parenthesized ["return", e.prefixed]
  | .class name none methods =>
    parenthesized ("class" :: name.lexeme :: FunctionDecl.prefixedAll methods)
  | .class name (some superclass) methods =>
    parenthesized
      ("class" :: name.lexeme :: "<" :: superclass.prefixed :: FunctionDecl.prefixedAll methods)

def Stmt.prefixedAll : List Stmt → List String
  | [] => []
  | s :: ss => s.prefixed :: Stmt.prefixedAll ss

def FunctionDecl.prefixed : FunctionDecl → String
  | .mk name params body =>
    parenthesized ("fun" :: FunctionDecl.heading name params :: Stmt.prefixedAll body)

def FunctionDecl.prefixedAll : List FunctionDecl → List String
  | [] => []
  | d :: ds => d.prefixed :: FunctionDecl.prefixedAll ds

end

end Lox
