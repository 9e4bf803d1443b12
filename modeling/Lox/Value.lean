import Lox.Number.Layout
import Lox.Tree

/-!
# Values

What a running program holds. Functions and classes are known by an identity that no other has;
instances by the object they stand for in the store. An environment is the list of its scopes'
frames, the innermost first, so that a binding is found by counting hops.
-/

namespace Lox

/-- A frame of the store: the bindings of one scope. -/
abbrev FrameId := Nat

/-- The frames in reach, the innermost first. -/
abbrev Env := List FrameId

/-- An object of the store: the fields and elements of one instance. -/
abbrev ObjectId := Nat

/-- Tells a function or class from all others. -/
abbrev Identity := Nat

/-- The routines that the language supplies. -/
inductive Native
  | clock | read | readNum | listInit | listGet | listSet | listAppend | listRemove | listPop
  deriving DecidableEq, Repr

def Native.arity : Native → Nat
  | .clock => 0
  | .read => 0
  | .readNum => 0
  | .listInit => 1
  | .listGet => 1
  | .listSet => 2
  | .listAppend => 1
  | .listRemove => 1
  | .listPop => 1

/-- A declaration with the environment it was evaluated in. -/
structure Closure where
  declaration : FunctionDecl
  env : Env
  /-- A call yields the receiver, whatever the body returns. -/
  isInitializer : Bool

/-- What a class holds under a name, before it is bound to an instance. -/
inductive Method
  | declared (closure : Closure)
  | native (op : Native)

namespace Method

def arity : Method → Nat
  | declared closure => closure.declaration.arity
  | native op => op.arity

end Method

/-- A class holds its own methods, the latest declaration first, and its superclass. -/
structure Class where
  id : Identity
  name : String
  superclass : Option Class
  methods : List (String × Method)

namespace Class

/-- The method of the nearest class upward that declares one of this name. -/
def findMethod? (name : String) : Class → Option Method
  | ⟨_, _, none, methods⟩ => methods.lookup name
  | ⟨_, _, some superclass, methods⟩ =>
    match methods.lookup name with
    | some method => some method
    | none => findMethod? name superclass

/-- A class is called with the arguments of its initializer. -/
def arity (c : Class) : Nat := ((c.findMethod? initializerName).map Method.arity).getD 0

end Class

/-- What can be called. A routine of the language may have been taken from an instance. -/
inductive Callable
  | function (id : Identity) (closure : Closure)
  | native (id : Identity) (op : Native) (receiver : Option ObjectId)
  | class (c : Class)

namespace Callable

def arity : Callable → Nat
  | function _ closure => closure.declaration.arity
  | native _ op _ => op.arity
  | .class c => c.arity

/-- Two callables are the same only if they came from one evaluation of one expression. -/
def same : Callable → Callable → Bool
  | function i _, function j _ => i == j
  | native i _ _, native j _ _ => i == j
  | .class c, .class d => c.id == d.id
  | _, _ => false

def text : Callable → String
  | function _ closure => "<fn " ++ closure.declaration.name.lexeme ++ ">"
  | native _ _ _ => "<native fn>"
  | .class c => c.name

end Callable

inductive Value
  | nil
  | bool (b : Bool)
  | number (x : Float)
  | string (s : String)
  | callable (c : Callable)
  | instance (c : Class) (object : ObjectId)

namespace Value

/-- Everything but `nil` and `false` counts as true. -/
def isTruthy : Value → Bool
  | nil => false
  | bool b => b
  | _ => true

/-- Values of different types differ; numbers compare as numbers, objects by identity. -/
def equals : Value → Value → Bool
  | nil, nil => true
  | bool a, bool b => a == b
  | number x, number y => x == y
  | string s, string t => s == t
  | callable c, callable d => c.same d
  | .instance _ o, .instance _ p => o == p
  | _, _ => false

def text : Value → String
  | nil => "nil"
  | bool true => "true"
  | bool false => "false"
  | number x => Number.printed x
  | string s => s
  | callable c => c.text
  | .instance c _ => c.name ++ " instance"

def typeName : Value → String
  | nil => "nil"
  | bool _ => "boolean"
  | number _ => "number"
  | string _ => "string"
  | callable (.class _) => "class"
  | callable _ => "function"
  | .instance _ _ => "instance"

def ofLiteral : Literal → Value
  | .nil => nil
  | .bool b => bool b
  | .number x => number x
  | .string s => string s

end Value

end Lox
