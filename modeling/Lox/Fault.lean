import Lox.Token

/-!
# Faults and their wording

Every way a source text can be rejected and a run can fail, as a cause, with its message. A
`Diagnostic` is a cause with the place it is reported at.
-/

namespace Lox

inductive LexicalFault
  | unexpectedCharacter (c : Char)
  | unterminatedString
  deriving DecidableEq

/-- The two things that are declared with a parameter list. -/
inductive Routine
  | function | method
  deriving DecidableEq

inductive SyntaxFault
  | expectClassName
  | expectSuperclassName
  | expectClassBody
  | expectClassEnd
  | expectRoutineName (r : Routine)
  | expectParameterList (r : Routine)
  | expectParameterName
  | expectParametersEnd
  | expectRoutineBody (r : Routine)
  | expectVariableName
  | expectVariableEnd
  | expectForClauses
  | expectConditionEnd
  | expectForClausesEnd
  | expectPrintEnd
  | expectExpressionEnd
  | expectIfCondition
  | expectIfConditionEnd
  | expectWhileCondition
  | expectWhileConditionEnd
  | expectBreakEnd
  | expectReturnEnd
  | expectBlockEnd
  | expectPropertyName
  | expectArgumentsEnd
  | expectSuperDot
  | expectSuperMethod
  | expectGroupEnd
  | expectExpression
  | expectEndOfExpression
  | invalidAssignmentTarget
  | tooManyArguments
  | tooManyParameters
  | breakOutsideLoop
  deriving DecidableEq

inductive BindingFault
  | alreadyDeclared
  | readInOwnInitializer
  | returnAtTopLevel
  | returnValueFromInitializer
  | thisOutsideClass
  | superOutsideClass
  | superWithoutSuperclass
  | inheritsFromItself
  deriving DecidableEq

inductive StreamFault
  | sinkFull
  | flushFailed
  | invalidUtf8
  deriving DecidableEq

inductive NativeFault
  | readFailed (cause : StreamFault)
  | notANumeral
  | noReceiver
  | indexOutOfRange
  | indexNotNatural
  | sizeNotNatural
  | sizeTooLarge
  deriving DecidableEq

inductive RuntimeFault
  | undefinedVariable (name : String)
  | undefinedProperty (name : String)
  | notCallable
  | wrongArity (expected got : Nat)
  | noProperties
  | noFields
  | operandNotNumber
  | operandsNotNumbers
  | operandsNotAddable
  | invalidUnaryOperator (lexeme : String)
  | invalidBinaryOperator (lexeme : String)
  | superclassNotClass
  | superOutsideClass
  | native (fault : NativeFault)
  deriving DecidableEq

namespace LexicalFault

def message : LexicalFault → String
  | unexpectedCharacter c => "Unexpected character: " ++ String.singleton c
  | unterminatedString => "Unterminated string."

end LexicalFault

namespace Routine

def noun : Routine → String
  | function => "function"
  | method => "method"

end Routine

namespace SyntaxFault

def message : SyntaxFault → String
  | expectClassName => "Expect class name."
  | expectSuperclassName => "Expect superclass name."
  | expectClassBody => "Expect '\x7b' before class body."
  | expectClassEnd => "Expect '\x7d' after class body."
  | expectRoutineName r => "Expect " ++ r.noun ++ " name."
  | expectParameterList r => "Expect '(' after " ++ r.noun ++ " name."
  | expectParameterName => "Expect parameter name."
  | expectParametersEnd => "Expect ')' after parameters."
  | expectRoutineBody r => "Expect '\x7b' before " ++ r.noun ++ " body."
  | expectVariableName => "Expect variable name."
  | expectVariableEnd => "Expect ';' after variable declaration."
  | expectForClauses => "Expect '(' after 'for'."
  | expectConditionEnd => "Expect ';' after loop condition."
  | expectForClausesEnd => "Expect ')' after for clauses."
  | expectPrintEnd => "Expect ';' after value."
  | expectExpressionEnd => "Expect ';' after expression."
  | expectIfCondition => "Expect '(' after 'if'."
  | expectIfConditionEnd => "Expect ')' after if condition."
  | expectWhileCondition => "Expect '(' after 'while'."
  | expectWhileConditionEnd => "Expect ')' after condition."
  | expectBreakEnd => "Expect ';' after 'break'."
  | expectReturnEnd => "Expect ';' after return value."
  | expectBlockEnd => "Expect '\x7d' after block."
  | expectPropertyName => "Expect property name after '.'."
  | expectArgumentsEnd => "Expect ')' after arguments."
  | expectSuperDot => "Expect '.' after 'super'."
  | expectSuperMethod => "Expect superclass method name."
  | expectGroupEnd => "Expect ')' after expression."
  | expectExpression => "Expect expression."
  | expectEndOfExpression => "Expect end of expression."
  | invalidAssignmentTarget => "Invalid assignment target."
  | tooManyArguments => "Can't have more than 255 arguments."
  | tooManyParameters => "Can't have more than 255 parameters."
  | breakOutsideLoop => "Must be inside a loop to use 'break'."

end SyntaxFault

namespace BindingFault

def message : BindingFault → String
  | alreadyDeclared => "Already a variable with this name in this scope."
  | readInOwnInitializer => "Can't read local variable in its own initializer."
  | returnAtTopLevel => "Can't return from top-level code."
  | returnValueFromInitializer => "Can't return a value from an initializer."
  | thisOutsideClass => "Can't use 'this' outside of a class."
  | superOutsideClass => "Can't use 'super' outside of a class."
  | superWithoutSuperclass => "Can't use 'super' in a class with no superclass."
  | inheritsFromItself => "A class can't inherit from itself."

end BindingFault

namespace StreamFault

def message : StreamFault → String
  | sinkFull => "sink full"
  | flushFailed => "flush failed"
  | invalidUtf8 => "stream did not contain valid UTF-8"

end StreamFault

namespace NativeFault

def message : NativeFault → String
  | readFailed cause => "Failed to read input: " ++ cause.message
  | notANumeral => "Can't convert string to number."
  | noReceiver => "List method called without a receiver."
  | indexOutOfRange => "Index out of range."
  | indexNotNatural => "Index must be a non-negative integer."
  | sizeNotNatural => "List size must be a non-negative integer."
  | sizeTooLarge => "List size too large."

end NativeFault

namespace RuntimeFault

def message : RuntimeFault → String
  | undefinedVariable name => "Undefined variable '" ++ name ++ "'."
  | undefinedProperty name => "Undefined property '" ++ name ++ "'."
  | notCallable => "Can only call functions and classes."
  | wrongArity expected got =>
    "Expected " ++ toString expected ++ " arguments but got " ++ toString got ++ "."
  | noProperties => "Only instances have properties."
  | noFields => "Only instances have fields."
  | operandNotNumber => "Operand must be a number."
  | operandsNotNumbers => "Operands must be numbers."
  | operandsNotAddable => "Operands must be two numbers or two strings."
  | invalidUnaryOperator lexeme => "Invalid unary operator '" ++ lexeme ++ "'."
  | invalidBinaryOperator lexeme => "Invalid binary operator '" ++ lexeme ++ "'."
  | superclassNotClass => "Superclass must be a class."
  | superOutsideClass => "Can't use 'super' outside of a class."
  | native fault => fault.message

end RuntimeFault

/-- Why a source text is rejected, and where. -/
inductive Diagnostic
  | lexical (line : Nat) (fault : LexicalFault)
  | grammatical (place : Token) (fault : SyntaxFault)
  | binding (place : Token) (fault : BindingFault)
  deriving DecidableEq

/-- Why a run is cut short: the program is at fault on some line, or a stream is. -/
inductive RunError
  | program (line : Nat) (fault : RuntimeFault)
  | stream (fault : StreamFault)
  deriving DecidableEq

namespace Token

def location (t : Token) : String :=
  match t.kind with
  | .eof => " at end"
  | _ => " at '" ++ t.lexeme ++ "'"

end Token

namespace Diagnostic

def line : Diagnostic → Nat
  | lexical line _ => line
  | grammatical place _ => place.line
  | binding place _ => place.line

def location : Diagnostic → String
  | lexical _ _ => ""
  | grammatical place _ => place.location
  | binding place _ => place.location

def message : Diagnostic → String
  | lexical _ fault => fault.message
  | grammatical _ fault => fault.message
  | binding _ fault => fault.message

def text (d : Diagnostic) : String :=
  "[line " ++ toString d.line ++ "] Error" ++ d.location ++ ": " ++ d.message

end Diagnostic

namespace RunError

def text : RunError → String
  | program line fault => fault.message ++ " [line " ++ toString line ++ "]"
  | stream fault => fault.message

end RunError

end Lox
