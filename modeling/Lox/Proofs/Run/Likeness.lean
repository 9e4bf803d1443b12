import Lox.Evaluation
import Lox.Proofs.Tree.Paired

/-!
# Values that look the same

Two runs may differ in what closures are made of and do the same all the same. A `Likeness` says
which closures count as the same. Values are alike if they differ in such closures only, and no
program can tell them apart: not by printing, comparing or testing them, nor by an operator
(`LikeValue.applyBinary`).
-/

namespace Lox

/-! ### Closures -/

/-- Which closures count as the same, as functions and as methods that are not bound yet. -/
structure Likeness where
  function : Closure → Closure → Prop
  method : Closure → Closure → Prop
  function_arity : ∀ {c d : Closure}, function c d → c.declaration.arity = d.declaration.arity
  function_name : ∀ {c d : Closure}, function c d →
    c.declaration.name.lexeme = d.declaration.name.lexeme
  method_arity : ∀ {c d : Closure}, method c d → c.declaration.arity = d.declaration.arity

inductive LikeMethod (K : Likeness) : Method → Method → Prop
  | declared {c d : Closure} (same : K.method c d) : LikeMethod K (.declared c) (.declared d)
  | native (op : Native) : LikeMethod K (.native op) (.native op)

/-- Tables with the same names and methods. -/
def LikeMethods (K : Likeness) : List (String × Method) → List (String × Method) → Prop :=
  List.Forall₂ fun a b => a.1 = b.1 ∧ LikeMethod K a.2 b.2

inductive LikeClass (K : Likeness) : Class → Class → Prop
  | base {id : Identity} {name : String} {ms ns : List (String × Method)}
      (methods : LikeMethods K ms ns) : LikeClass K ⟨id, name, none, ms⟩ ⟨id, name, none, ns⟩
  | derived {id : Identity} {name : String} {c d : Class} {ms ns : List (String × Method)}
      (superclass : LikeClass K c d) (methods : LikeMethods K ms ns) :
      LikeClass K ⟨id, name, some c, ms⟩ ⟨id, name, some d, ns⟩

inductive LikeCallable (K : Likeness) : Callable → Callable → Prop
  | function (id : Identity) {c d : Closure} (same : K.function c d) :
      LikeCallable K (.function id c) (.function id d)
  | native (id : Identity) (op : Native) (receiver : Option ObjectId) :
      LikeCallable K (.native id op receiver) (.native id op receiver)
  | class {c d : Class} (same : LikeClass K c d) : LikeCallable K (.class c) (.class d)

inductive LikeValue (K : Likeness) : Value → Value → Prop
  | nil : LikeValue K .nil .nil
  | bool (b : Bool) : LikeValue K (.bool b) (.bool b)
  | number (x : Float) : LikeValue K (.number x) (.number x)
  | string (s : String) : LikeValue K (.string s) (.string s)
  | callable {c d : Callable} (same : LikeCallable K c d) :
      LikeValue K (.callable c) (.callable d)
  | instance {c d : Class} (same : LikeClass K c d) (object : ObjectId) :
      LikeValue K (.instance c object) (.instance d object)

/-! ### Equality of closures -/

/-- Only equal closures count as the same. -/
def Likeness.equality : Likeness where
  function := Eq
  method := Eq
  function_arity same := congrArg (·.declaration.arity) same
  function_name same := congrArg (·.declaration.name.lexeme) same
  method_arity same := congrArg (·.declaration.arity) same

theorem LikeMethods.refl (ms : List (String × Method)) : LikeMethods .equality ms ms := by
  refine List.forall₂_same.2 fun entry _ => ⟨rfl, ?_⟩
  cases entry.2 with
  | declared closure => exact .declared rfl
  | native op => exact .native op

theorem LikeClass.refl : (c : Class) → LikeClass .equality c c
  | ⟨_, _, none, ms⟩ => .base (LikeMethods.refl ms)
  | ⟨_, _, some c, ms⟩ => .derived (LikeClass.refl c) (LikeMethods.refl ms)

theorem LikeValue.refl (v : Value) : LikeValue .equality v v := by
  cases v with
  | nil => exact .nil
  | bool b => exact .bool b
  | number x => exact .number x
  | string s => exact .string s
  | callable c =>
    cases c with
    | function id closure => exact .callable (.function id rfl)
    | native id op receiver => exact .callable (.native id op receiver)
    | «class» c => exact .callable (.class (LikeClass.refl c))
  | «instance» c object => exact .instance (LikeClass.refl c) object

/-! ### What is supplied -/

/-- What is supplied is made of no closure. -/
theorem supplied_like (K : Likeness) {x : String} {v : Value}
    (found : Machine.supplied.reverse.lookup x = some v) : LikeValue K v v := by
  have natives : ∀ ms : List (String × Method), (∀ p ∈ ms, ∃ op, p.2 = .native op) →
      LikeMethods K ms ms := fun ms all => List.forall₂_same.2 fun p mem => by
    obtain ⟨op, same⟩ := all p mem
    rw [same]
    exact ⟨rfl, .native op⟩
  obtain ⟨before, after, split, -⟩ := List.lookup_eq_some_iff.1 found
  have mem : (x, v) ∈ Machine.supplied := by
    rw [← List.mem_reverse, split]
    simp
  simp only [Machine.supplied, List.mem_cons, Prod.mk.injEq, List.not_mem_nil, or_false] at mem
  rcases mem with ⟨-, rfl⟩ | ⟨-, rfl⟩ | ⟨-, rfl⟩
  · exact .callable (.native 0 .clock none)
  · exact .instance (.base (natives _ (by simp))) 0
  · exact .callable (.class (.base (natives _ (by simp))))

/-! ### More closures that count as the same -/

section Later

variable {K L : Likeness}

/-- What counts as the same for `K` does so for `L`. -/
structure Likeness.Le (K L : Likeness) : Prop where
  function : ∀ c d, K.function c d → L.function c d
  method : ∀ c d, K.method c d → L.method c d

theorem LikeMethod.mono {a b : Method} (h : LikeMethod K a b) (le : K.Le L) :
    LikeMethod L a b := by
  cases h with
  | declared same => exact .declared (le.method _ _ same)
  | native op => exact .native op

theorem LikeMethods.mono {ms ns : List (String × Method)} (h : LikeMethods K ms ns)
    (le : K.Le L) : LikeMethods L ms ns :=
  List.Forall₂.imp (fun _ _ entry => ⟨entry.1, entry.2.mono le⟩) h

theorem LikeClass.mono {c d : Class} (h : LikeClass K c d) (le : K.Le L) : LikeClass L c d := by
  induction h with
  | base methods => exact .base (methods.mono le)
  | derived _ methods ih => exact .derived ih (methods.mono le)

theorem LikeCallable.mono {c d : Callable} (h : LikeCallable K c d) (le : K.Le L) :
    LikeCallable L c d := by
  cases h with
  | function id same => exact .function id (le.function _ _ same)
  | native id op receiver => exact .native id op receiver
  | «class» same => exact .class (same.mono le)

theorem LikeValue.mono {v v' : Value} (h : LikeValue K v v') (le : K.Le L) : LikeValue L v v' := by
  cases h with
  | nil => exact .nil
  | bool b => exact .bool b
  | number x => exact .number x
  | string s => exact .string s
  | callable same => exact .callable (same.mono le)
  | «instance» same object => exact .instance (same.mono le) object

end Later

/-! ### What programs see of values -/

section Observations

variable {K : Likeness}

theorem LikeMethod.arity {a b : Method} (h : LikeMethod K a b) : a.arity = b.arity := by
  cases h with
  | declared same => exact K.method_arity same
  | native op => rfl

theorem LikeMethods.lookup {ms ns : List (String × Method)} (h : LikeMethods K ms ns)
    (name : String) : Option.Rel (LikeMethod K) (ms.lookup name) (ns.lookup name) := by
  induction h with
  | nil => exact .none
  | @cons a b ms ns entry _ ih =>
    obtain ⟨key, method⟩ := a
    obtain ⟨key', method'⟩ := b
    obtain ⟨rfl, same⟩ := entry
    rw [List.lookup_cons, List.lookup_cons]
    cases name == key with
    | true => exact .some same
    | false => exact ih

theorem LikeClass.findMethod? {c d : Class} (h : LikeClass K c d) (name : String) :
    Option.Rel (LikeMethod K) (c.findMethod? name) (d.findMethod? name) := by
  induction h with
  | base methods => exact methods.lookup name
  | @derived _ _ _ _ ms ns _ methods ih =>
    have here := methods.lookup name
    unfold Class.findMethod?
    cases found : ms.lookup name with
    | none =>
      rw [found] at here
      cases here' : ns.lookup name with
      | none => exact ih
      | some b =>
        rw [here'] at here
        nomatch here
    | some a =>
      rw [found] at here
      cases here' : ns.lookup name with
      | none =>
        rw [here'] at here
        nomatch here
      | some b =>
        rw [here'] at here
        exact here

theorem LikeClass.arity {c d : Class} (h : LikeClass K c d) : c.arity = d.arity := by
  have found := h.findMethod? initializerName
  unfold Class.arity
  generalize c.findMethod? initializerName = a at found ⊢
  generalize d.findMethod? initializerName = b at found ⊢
  cases found with
  | none => rfl
  | some same => simp [same.arity]

theorem LikeClass.name {c d : Class} (h : LikeClass K c d) : c.name = d.name := by
  cases h with
  | base methods => rfl
  | derived superclass methods => rfl

theorem LikeClass.id {c d : Class} (h : LikeClass K c d) : c.id = d.id := by
  cases h with
  | base methods => rfl
  | derived superclass methods => rfl

theorem LikeCallable.arity {c d : Callable} (h : LikeCallable K c d) : c.arity = d.arity := by
  cases h with
  | function id same => exact K.function_arity same
  | native id op receiver => rfl
  | «class» same => exact same.arity

theorem LikeCallable.text {c d : Callable} (h : LikeCallable K c d) : c.text = d.text := by
  cases h with
  | function id same => simp only [Callable.text, K.function_name same]
  | native id op receiver => rfl
  | «class» same => exact same.name

theorem LikeCallable.same {c c' d d' : Callable} (h : LikeCallable K c c')
    (k : LikeCallable K d d') : c.same d = c'.same d' := by
  cases h with
  | function id _ => cases k <;> rfl
  | native id op receiver => cases k <;> rfl
  | «class» first =>
    cases k with
    | function id _ => rfl
    | native id op receiver => rfl
    | «class» second => simp only [Callable.same, first.id, second.id]

variable {v v' w w' : Value}

theorem LikeValue.isTruthy (h : LikeValue K v v') : v.isTruthy = v'.isTruthy := by
  cases h <;> rfl

theorem LikeValue.text (h : LikeValue K v v') : v.text = v'.text := by
  cases h with
  | callable same => exact same.text
  | «instance» same object => simp only [Value.text, same.name]
  | nil | bool | number | string => rfl

theorem LikeValue.decides (h : LikeValue K v v') (operator : Token) :
    v.decides operator = v'.decides operator := by
  unfold Value.decides
  rw [h.isTruthy]

theorem LikeValue.equals (h : LikeValue K v v') (k : LikeValue K w w') :
    v.equals w = v'.equals w' := by
  cases h with
  | callable same =>
    cases k with
    | callable other => exact same.same other
    | nil | bool | number | string | «instance» => rfl
  | nil | bool | number | string | «instance» => cases k <;> rfl

theorem LikeValue.classOf? (h : LikeValue K v v') :
    Option.Rel (LikeClass K) (Lox.classOf? v) (Lox.classOf? v') := by
  cases h with
  | callable same =>
    cases same with
    | «class» same => exact .some same
    | function | native => exact .none
  | nil | bool | number | string | «instance» => exact .none

theorem LikeValue.instanceOf? (h : LikeValue K v v') :
    Option.Rel (fun a b => LikeClass K a.1 b.1 ∧ a.2 = b.2) (Lox.instanceOf? v)
      (Lox.instanceOf? v') := by
  cases h with
  | «instance» same object => exact .some ⟨same, rfl⟩
  | nil | bool | number | string | callable => exact .none

theorem likeValue_ofLiteral (K : Likeness) (l : Literal) :
    LikeValue K (.ofLiteral l) (.ofLiteral l) := by
  cases l with
  | nil => exact .nil
  | bool b => exact .bool b
  | number x => exact .number x
  | string s => exact .string s

/-! ### Operators -/

/-- The same value or the same fault. -/
inductive LikeResult (K : Likeness) : Except RuntimeFault Value → Except RuntimeFault Value → Prop
  | ok {v v' : Value} (same : LikeValue K v v') : LikeResult K (.ok v) (.ok v')
  | error (cause : RuntimeFault) : LikeResult K (.error cause) (.error cause)

theorem LikeValue.applyUnary (h : LikeValue K v v') (operator : Token) :
    LikeResult K (v.applyUnary operator) (v'.applyUnary operator) := by
  have same : v.applyUnary operator = v'.applyUnary operator := by
    unfold Value.applyUnary
    cases operator.kind with
    | symbol s => cases s <;> cases h <;> rfl
    | _ => rfl
  rw [same]
  unfold Value.applyUnary
  split
  · exact .ok (.number _)
  · exact .error _
  · exact .ok (.bool _)
  · exact .error _

theorem likeResult_applyNumeric (K : Likeness) (operator : Token) (x y : Float) :
    LikeResult K (Value.applyNumeric operator x y) (Value.applyNumeric operator x y) := by
  unfold Value.applyNumeric
  split
  · exact .ok (.number _)
  · exact .ok (.number _)
  · exact .ok (.number _)
  · exact .ok (.bool _)
  · exact .ok (.bool _)
  · exact .ok (.bool _)
  · exact .ok (.bool _)
  · exact .error _

theorem LikeValue.add (h : LikeValue K v v') (k : LikeValue K w w') :
    LikeResult K (v.add w) (v'.add w') := by
  cases h with
  | number x =>
    cases k with
    | number y => exact .ok (.number _)
    | nil | bool | string | callable | «instance» => exact .error _
  | string s =>
    cases k with
    | string t => exact .ok (.string _)
    | nil | bool | number | callable | «instance» => exact .error _
  | nil | bool | callable | «instance» => exact .error _

theorem LikeValue.applyBinary (h : LikeValue K v v') (k : LikeValue K w w') (operator : Token) :
    LikeResult K (v.applyBinary operator w) (v'.applyBinary operator w') := by
  unfold Value.applyBinary
  rw [h.equals k]
  split
  · exact .ok (.bool _)
  · exact .ok (.bool _)
  · exact h.add k
  · cases h with
    | number x =>
      cases k with
      | number y => exact likeResult_applyNumeric K operator x y
      | nil | bool | string | callable | «instance» => exact .error _
    | nil | bool | string | callable | «instance» => exact .error _

end Observations

end Lox
