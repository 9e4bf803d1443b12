import Lox.Proofs.Run.Likeness
import Lox.Proofs.Scoping.World

/-!
# Values in both runs

Values of the two runs are the same but for the environments that closures keep: one has frames and
the other cells, and both realize the scopes in which the walk found the declaration.
-/

namespace Lox.Scoping

open Binding (Scope Site Origin Context Walk Placed Settled thisScope routine routineSites)
open Lexical (Names CellId)

/-- The walk visited a declaration in these scopes and found no fault. -/
structure Visited (W : World) (c : Context) (w : Walk) (origins : List Origin)
    (d : FunctionDecl) : Prop where
  sites : routineSites origins c w d ⊆ W.sites
  clean : (routine c w d).faults = []
  placed : Placed c w.scopes
  settled : Settled w.scopes
  proper : d.Proper

theorem Visited.mono {W W' : World} {c : Context} {w : Walk} {origins : List Origin}
    {d : FunctionDecl} (h : Visited W c w origins d) (le : W.Le W') : Visited W' c w origins d :=
  { h with sites := le.covers h.sites }

/-- A function with the two environments that it keeps. The scope of `this` is the innermost one
around an initializer. -/
def FunctionOk (W : World) (d : FunctionDecl) (initializer : Bool) (names : Names) (env : Env) :
    Prop :=
  ∃ c w origins, Visited W c w origins d ∧ Scoped W w.scopes origins names env ∧
    (initializer = true → ∃ outer, w.scopes = thisScope :: outer)

theorem FunctionOk.mono {W W' : World} {d : FunctionDecl} {initializer : Bool} {names : Names}
    {env : Env} (h : FunctionOk W d initializer names env) (le : W.Le W') :
    FunctionOk W' d initializer names env := by
  obtain ⟨c, w, origins, visited, around, this⟩ := h
  exact ⟨c, w, origins, visited.mono le, around.mono le, this⟩

/-- A method with the two environments that it keeps before it is bound. -/
def MethodOk (W : World) (d : FunctionDecl) (names : Names) (env : Env) : Prop :=
  ∃ c w outer origins, w.scopes = thisScope :: outer ∧
    Visited W c w (.this d :: origins) d ∧ Scoped W outer origins names env

inductive SameMethod (W : World) : Method → Method → Prop
  | declared {d : FunctionDecl} {initializer : Bool} {names : Names} {env : Env}
      (ok : MethodOk W d names env) :
      SameMethod W (.declared ⟨d, env, initializer⟩) (.declared ⟨d, names, initializer⟩)
  | native (op : Native) : SameMethod W (.native op) (.native op)

/-- Tables with the same names and methods. -/
def SameMethods (W : World) : List (String × Method) → List (String × Method) → Prop :=
  List.Forall₂ fun a b => a.1 = b.1 ∧ SameMethod W a.2 b.2

inductive SameClass (W : World) : Class → Class → Prop
  | base {id : Identity} {name : String} {ms ns : List (String × Method)}
      (methods : SameMethods W ms ns) : SameClass W ⟨id, name, none, ms⟩ ⟨id, name, none, ns⟩
  | derived {id : Identity} {name : String} {c d : Class} {ms ns : List (String × Method)}
      (superclass : SameClass W c d) (methods : SameMethods W ms ns) :
      SameClass W ⟨id, name, some c, ms⟩ ⟨id, name, some d, ns⟩

inductive SameCallable (W : World) : Callable → Callable → Prop
  | function {id : Identity} {d : FunctionDecl} {initializer : Bool} {names : Names} {env : Env}
      (ok : FunctionOk W d initializer names env) :
      SameCallable W (.function id ⟨d, env, initializer⟩) (.function id ⟨d, names, initializer⟩)
  | native (id : Identity) (op : Native) (receiver : Option ObjectId) :
      SameCallable W (.native id op receiver) (.native id op receiver)
  | class {c d : Class} (same : SameClass W c d) : SameCallable W (.class c) (.class d)

inductive SameValue (W : World) : Value → Value → Prop
  | nil : SameValue W .nil .nil
  | bool (b : Bool) : SameValue W (.bool b) (.bool b)
  | number (x : Float) : SameValue W (.number x) (.number x)
  | string (s : String) : SameValue W (.string s) (.string s)
  | callable {c d : Callable} (same : SameCallable W c d) : SameValue W (.callable c) (.callable d)
  | instance {c d : Class} (same : SameClass W c d) (object : ObjectId) :
      SameValue W (.instance c object) (.instance d object)

/-! ### Later worlds -/

section Later

variable {W W' : World}

theorem SameMethod.mono {a b : Method} (h : SameMethod W a b) (le : W.Le W') :
    SameMethod W' a b := by
  cases h with
  | declared ok =>
    obtain ⟨c, w, outer, origins, this, visited, around⟩ := ok
    exact .declared ⟨c, w, outer, origins, this, visited.mono le, around.mono le⟩
  | native op => exact .native op

theorem SameMethods.mono {ms ns : List (String × Method)} (h : SameMethods W ms ns)
    (le : W.Le W') : SameMethods W' ms ns :=
  List.Forall₂.imp (fun _ _ entry => ⟨entry.1, entry.2.mono le⟩) h

theorem SameClass.mono {c d : Class} (h : SameClass W c d) (le : W.Le W') : SameClass W' c d := by
  induction h with
  | base methods => exact .base (methods.mono le)
  | derived _ methods ih => exact .derived ih (methods.mono le)

theorem SameCallable.mono {c d : Callable} (h : SameCallable W c d) (le : W.Le W') :
    SameCallable W' c d := by
  cases h with
  | function ok => exact .function (ok.mono le)
  | native id op receiver => exact .native id op receiver
  | «class» same => exact .class (same.mono le)

theorem SameValue.mono {v v' : Value} (h : SameValue W v v') (le : W.Le W') :
    SameValue W' v v' := by
  cases h with
  | nil => exact .nil
  | bool b => exact .bool b
  | number x => exact .number x
  | string s => exact .string s
  | callable same => exact .callable (same.mono le)
  | «instance» same object => exact .instance (same.mono le) object

end Later

/-! ### What programs see of values -/

/-- The closures that are the same in a world: they have one declaration, and each its environment. -/
def World.likeness (W : World) : Likeness where
  function c d := c.declaration = d.declaration ∧ c.isInitializer = d.isInitializer ∧
    FunctionOk W c.declaration c.isInitializer d.env c.env
  method c d := c.declaration = d.declaration ∧ c.isInitializer = d.isInitializer ∧
    MethodOk W c.declaration d.env c.env
  function_arity same := congrArg FunctionDecl.arity same.1
  function_name same := congrArg (·.name.lexeme) same.1
  method_arity same := congrArg FunctionDecl.arity same.1

section Observations

variable {W : World}

theorem sameMethod_iff {a b : Method} : SameMethod W a b ↔ LikeMethod W.likeness a b := by
  constructor
  · intro h
    cases h with
    | declared ok => exact .declared ⟨rfl, rfl, ok⟩
    | native op => exact .native op
  · intro h
    cases h with
    | @declared first second same =>
      obtain ⟨d, env, initializer⟩ := first
      obtain ⟨d', names, initializer'⟩ := second
      obtain ⟨rfl, rfl, ok⟩ := same
      exact .declared ok
    | native op => exact .native op

theorem sameMethods_iff {ms ns : List (String × Method)} :
    SameMethods W ms ns ↔ LikeMethods W.likeness ms ns := by
  unfold SameMethods LikeMethods
  simp only [sameMethod_iff]

theorem sameClass_iff {c d : Class} : SameClass W c d ↔ LikeClass W.likeness c d := by
  constructor
  · intro h
    induction h with
    | base methods => exact .base (sameMethods_iff.1 methods)
    | derived _ methods ih => exact .derived ih (sameMethods_iff.1 methods)
  · intro h
    induction h with
    | base methods => exact .base (sameMethods_iff.2 methods)
    | derived _ methods ih => exact .derived ih (sameMethods_iff.2 methods)

theorem sameCallable_iff {c d : Callable} : SameCallable W c d ↔ LikeCallable W.likeness c d := by
  constructor
  · intro h
    cases h with
    | function ok => exact .function _ ⟨rfl, rfl, ok⟩
    | native id op receiver => exact .native id op receiver
    | «class» same => exact .class (sameClass_iff.1 same)
  · intro h
    cases h with
    | @function id first second same =>
      obtain ⟨d, env, initializer⟩ := first
      obtain ⟨d', names, initializer'⟩ := second
      obtain ⟨rfl, rfl, ok⟩ := same
      exact .function ok
    | native id op receiver => exact .native id op receiver
    | «class» same => exact .class (sameClass_iff.2 same)

theorem sameValue_iff {v v' : Value} : SameValue W v v' ↔ LikeValue W.likeness v v' := by
  constructor
  · intro h
    cases h with
    | nil => exact .nil
    | bool b => exact .bool b
    | number x => exact .number x
    | string s => exact .string s
    | callable same => exact .callable (sameCallable_iff.1 same)
    | «instance» same object => exact .instance (sameClass_iff.1 same) object
  · intro h
    cases h with
    | nil => exact .nil
    | bool b => exact .bool b
    | number x => exact .number x
    | string s => exact .string s
    | callable same => exact .callable (sameCallable_iff.2 same)
    | «instance» same object => exact .instance (sameClass_iff.2 same) object

theorem SameClass.findMethod? {c d : Class} (h : SameClass W c d) (name : String) :
    Option.Rel (SameMethod W) (c.findMethod? name) (d.findMethod? name) := by
  rw [funext₂ fun a b => propext (sameMethod_iff (W := W) (a := a) (b := b))]
  exact (sameClass_iff.1 h).findMethod? name

theorem SameCallable.arity {c d : Callable} (h : SameCallable W c d) : c.arity = d.arity :=
  (sameCallable_iff.1 h).arity

variable {v v' w w' : Value}

theorem SameValue.isTruthy (h : SameValue W v v') : v.isTruthy = v'.isTruthy :=
  (sameValue_iff.1 h).isTruthy

theorem SameValue.text (h : SameValue W v v') : v.text = v'.text := (sameValue_iff.1 h).text

theorem SameValue.decides (h : SameValue W v v') (operator : Token) :
    v.decides operator = v'.decides operator :=
  (sameValue_iff.1 h).decides operator

theorem SameValue.classOf? (h : SameValue W v v') :
    Option.Rel (SameClass W) (Lox.classOf? v) (Lox.classOf? v') := by
  rw [funext₂ fun a b => propext (sameClass_iff (W := W) (c := a) (d := b))]
  exact (sameValue_iff.1 h).classOf?

theorem SameValue.instanceOf? (h : SameValue W v v') :
    Option.Rel (fun a b => SameClass W a.1 b.1 ∧ a.2 = b.2) (Lox.instanceOf? v)
      (Lox.instanceOf? v') := by
  simp only [sameClass_iff]
  exact (sameValue_iff.1 h).instanceOf?

theorem sameValue_ofLiteral (W : World) (l : Literal) :
    SameValue W (.ofLiteral l) (.ofLiteral l) :=
  sameValue_iff.2 (likeValue_ofLiteral W.likeness l)

/-! ### Operators -/

/-- The same value or the same fault. -/
inductive SameResult (W : World) : Except RuntimeFault Value → Except RuntimeFault Value → Prop
  | ok {v v' : Value} (same : SameValue W v v') : SameResult W (.ok v) (.ok v')
  | error (cause : RuntimeFault) : SameResult W (.error cause) (.error cause)

theorem SameResult.of_like {r r' : Except RuntimeFault Value} (h : LikeResult W.likeness r r') :
    SameResult W r r' := by
  cases h with
  | ok same => exact .ok (sameValue_iff.2 same)
  | error cause => exact .error cause

theorem SameValue.applyUnary (h : SameValue W v v') (operator : Token) :
    SameResult W (v.applyUnary operator) (v'.applyUnary operator) :=
  .of_like ((sameValue_iff.1 h).applyUnary operator)

theorem SameValue.applyBinary (h : SameValue W v v') (k : SameValue W w w') (operator : Token) :
    SameResult W (v.applyBinary operator w) (v'.applyBinary operator w') :=
  .of_like ((sameValue_iff.1 h).applyBinary (sameValue_iff.1 k) operator)

end Observations

end Lox.Scoping
