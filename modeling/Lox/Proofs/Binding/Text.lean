import Lox.Proofs.Binding.Occurrence

/-!
# Programs as texts

A program from left to right, as far as names go: where a scope begins and ends, where a name is
declared and where a node names a binding. What a node refers to is said of the text before it alone
(`DeclaredOut`): of the scopes that are still open there, it is the innermost that declares the name
by then. Nothing here looks at the walk.
-/

namespace Lox

/-- What a text says of names at one place. -/
inductive Mark
  | enter
  | leave
  | declares (name : String)
  | refers (id : NodeId) (name : String)

def Mark.id? : Mark → Option NodeId
  | .refers id _ => some id
  | _ => none

/-! ### Texts of trees -/

mutual

def Expr.marks : Expr → List Mark
  | .literal _ => []
  | .unary _ right => right.marks
  | .binary left _ right => left.marks ++ right.marks
  | .logical left _ right => left.marks ++ right.marks
  | .group inner => inner.marks
  | .variable id name => [.refers id name.lexeme]
  | .assign id name value => [.refers id name.lexeme] ++ value.marks
  | .call callee _ arguments => callee.marks ++ Expr.marksAll arguments
  | .get object _ => object.marks
  | .set object _ value => object.marks ++ value.marks
  | .this id keyword => [.refers id keyword.lexeme]
  | .super id keyword _ => [.refers id keyword.lexeme]

def Expr.marksAll : List Expr → List Mark
  | [] => []
  | e :: es => e.marks ++ Expr.marksAll es

end

def Expr.marksOption : Option Expr → List Mark
  | none => []
  | some e => e.marks

/-- The declarations of names, one after the other. -/
def declaring (names : List String) : List Mark := names.map .declares

/-- A scope in which some names are declared from the start. -/
def inScope (names : List String) (text : List Mark) : List Mark :=
  [.enter] ++ declaring names ++ text ++ [.leave]

/-- The methods of a class: inside the scope of `this` and, if the class has a superclass, that one
inside the scope of `super`. -/
def inClass (derived : Bool) (methods : List Mark) : List Mark :=
  if derived then inScope ["super"] (inScope ["this"] methods) else inScope ["this"] methods

mutual

/-- A variable is declared before its initializer, and a function or class before all that is in it. -/
def Stmt.marks : Stmt → List Mark
  | .expression e => e.marks
  | .print e => e.marks
  | .var name initializer => [.declares name.lexeme] ++ Expr.marksOption initializer
  | .block body => inScope [] (Stmt.marksAll body)
  | .ite condition thenBranch none => condition.marks ++ thenBranch.marks
  | .ite condition thenBranch (some elseBranch) =>
    condition.marks ++ (thenBranch.marks ++ elseBranch.marks)
  | .while condition body => condition.marks ++ body.marks
  | .break _ => []
  | .function d => [.declares d.name.lexeme] ++ d.marks
  | .return _ value => Expr.marksOption value
  | .class name superclass methods =>
    [.declares name.lexeme] ++ (Expr.marksOption superclass ++
      inClass superclass.isSome (FunctionDecl.marksAll methods))

def Stmt.marksAll : List Stmt → List Mark
  | [] => []
  | s :: ss => s.marks ++ Stmt.marksAll ss

/-- The parameters and the body of a function share one scope. -/
def FunctionDecl.marks : FunctionDecl → List Mark
  | .mk _ params body => inScope (params.map (·.lexeme)) (Stmt.marksAll body)

def FunctionDecl.marksAll : List FunctionDecl → List Mark
  | [] => []
  | d :: ds => d.marks ++ FunctionDecl.marksAll ds

end

/-- The names that a statement declares in the scope that it stands in. -/
def Stmt.introduced (s : Stmt) : List String := s.declared?.toList.map (·.lexeme)

namespace Binding

/-! ### Scopes of a text -/

/-- How many scopes are open after a text that stands in so many. There is no answer if the text
leaves more than there are. -/
def level : List Mark → Nat → Option Nat
  | [], n => some n
  | .enter :: text, n => level text (n + 1)
  | .leave :: _, 0 => none
  | .leave :: text, n + 1 => level text n
  | .declares _ :: text, n => level text n
  | .refers _ _ :: text, n => level text n

/-- The scopes that the text enters are those that it leaves. -/
def Balanced (text : List Mark) : Prop := level text 0 = some 0

/-- The text declares the name outside all scopes that it enters. -/
def Introduces (text : List Mark) (name : String) : Prop :=
  ∃ before after, text = before ++ .declares name :: after ∧ Balanced before

/-- Among the scopes that are open at the end of the text, the innermost that declares the name has
so many others inside it. -/
inductive DeclaredOut (name : String) : List Mark → Nat → Prop
  | here {outer inner : List Mark} (closed : Balanced inner) (own : Introduces inner name) :
      DeclaredOut name (outer ++ .enter :: inner) 0
  | further {outer inner : List Mark} {d : Nat} (closed : Balanced inner)
      (other : ¬ Introduces inner name) (out : DeclaredOut name outer d) :
      DeclaredOut name (outer ++ .enter :: inner) (d + 1)

theorem level_append (text more : List Mark) (n : Nat) :
    level (text ++ more) n = (level text n).bind (level more) := by
  induction text generalizing n with
  | nil => rfl
  | cons m text ih =>
    cases m with
    | enter => exact ih (n + 1)
    | declares | refers => exact ih n
    | leave =>
      cases n with
      | zero => rfl
      | succ n => exact ih n

/-- A text stays inside the scopes that were open before. -/
theorem level_add {text : List Mark} {n k : Nat} (h : level text n = some k) (more : Nat) :
    level text (n + more) = some (k + more) := by
  induction text generalizing n with
  | nil =>
    cases h
    rfl
  | cons m text ih =>
    cases m with
    | enter =>
      rw [level, Nat.add_right_comm]
      exact ih h
    | declares | refers => exact ih h
    | leave =>
      cases n with
      | zero => cases h
      | succ n =>
        rw [Nat.add_right_comm]
        exact ih h

theorem Balanced.inside {text : List Mark} (h : Balanced text) (n : Nat) :
    level text n = some n := by
  have shifted := level_add h n
  rwa [Nat.zero_add] at shifted

theorem Balanced.start {text more : List Mark} (h : Balanced (text ++ more)) :
    ∃ n, level text 0 = some n := by
  unfold Balanced at h
  rw [level_append] at h
  obtain ⟨n, start, -⟩ := Option.bind_eq_some_iff.1 h
  exact ⟨n, start⟩

theorem balanced_nil : Balanced [] := rfl

theorem Balanced.append_iff {text more : List Mark} (h : Balanced text) :
    Balanced (text ++ more) ↔ Balanced more := by
  unfold Balanced
  rw [level_append, h]
  rfl

/-- A scope that is entered and not left is open at the end. -/
theorem not_balanced_enter {inner : List Mark} (h : Balanced inner) (outer : List Mark) :
    ¬ Balanced (outer ++ .enter :: inner) := by
  intro whole
  unfold Balanced at whole
  rw [level_append] at whole
  obtain ⟨n, -, last⟩ := Option.bind_eq_some_iff.1 whole
  have opened : level (.enter :: inner) n = some (n + 1) := h.inside (n + 1)
  cases opened.symm.trans last

/-- The innermost scope that is open has one beginning. -/
theorem enter_unique {outer outer' inner inner' : List Mark}
    (same : outer ++ .enter :: inner = outer' ++ .enter :: inner') (h : Balanced inner)
    (h' : Balanced inner') : outer = outer' ∧ inner = inner' := by
  have unequal : ∀ {m : Mark} {between inner inner' : List Mark}, Balanced inner → Balanced inner' →
      .enter :: inner ≠ m :: between ++ .enter :: inner' := by
    intro m between inner inner' h h' same
    obtain ⟨-, rfl⟩ := List.cons.inj same
    exact not_balanced_enter h' between h
  obtain ⟨between, rest, tail⟩ | ⟨between, rest, tail⟩ := List.append_eq_append_iff.1 same
  · cases between with
    | nil =>
      rw [List.append_nil] at rest
      exact ⟨rest.symm, (List.cons.inj tail).2⟩
    | cons m between => exact absurd tail (unequal h h')
  · cases between with
    | nil =>
      rw [List.append_nil] at rest
      exact ⟨rest, (List.cons.inj tail).2.symm⟩
    | cons m between => exact absurd tail (unequal h' h)

theorem DeclaredOut.unique {name : String} {text : List Mark} {d d' : Nat}
    (h : DeclaredOut name text d) (h' : DeclaredOut name text d') : d = d' := by
  generalize alike : text = text' at h'
  induction h generalizing d' text' with
  | here closed own =>
    cases h' with
    | here => rfl
    | further closed' other =>
      obtain ⟨-, rfl⟩ := enter_unique alike closed closed'
      exact absurd own other
  | further closed other _ ih =>
    cases h' with
    | here closed' own =>
      obtain ⟨-, rfl⟩ := enter_unique alike closed closed'
      exact absurd own other
    | further closed' _ out' =>
      obtain ⟨rfl, -⟩ := enter_unique alike closed closed'
      rw [ih _ rfl out']

theorem introduces_append {text : List Mark} (h : Balanced text) (more : List Mark) (name : String) :
    Introduces (text ++ more) name ↔ Introduces text name ∨ Introduces more name := by
  constructor
  · rintro ⟨before, after, whole, closed⟩
    obtain ⟨between, rfl, rest⟩ | ⟨between, rfl, rest⟩ := List.append_eq_append_iff.1 whole
    · exact .inr ⟨between, after, rest, h.append_iff.1 closed⟩
    · cases between with
      | nil =>
        rw [List.append_nil] at h
        exact .inr ⟨[], after, rest.symm, balanced_nil⟩
      | cons m between =>
        obtain ⟨rfl, -⟩ := List.cons.inj rest
        exact .inl ⟨before, between, rfl, closed⟩
  · rintro (⟨before, after, rfl, closed⟩ | ⟨before, after, rfl, closed⟩)
    · exact ⟨before, after ++ more, List.append_assoc _ _ _, closed⟩
    · exact ⟨text ++ before, after, (List.append_assoc _ _ _).symm, h.append_iff.2 closed⟩

/-! ### What a text contributes to its scope -/

/-- The text is balanced and declares just these names in the scope that it stands in. -/
structure Contributes (text : List Mark) (names : List String) : Prop where
  balanced : Balanced text
  introduces : ∀ name, Introduces text name ↔ name ∈ names

namespace Contributes

variable {text more : List Mark} {names names' : List String}

theorem nil : Contributes [] [] :=
  ⟨balanced_nil, fun name => ⟨fun ⟨before, after, whole, _⟩ => by simp at whole, nofun⟩⟩

theorem declares (name : String) : Contributes [.declares name] [name] := by
  refine ⟨rfl, fun x => ⟨fun ⟨before, after, whole, _⟩ => ?_, fun mem => ?_⟩⟩
  · obtain ⟨rfl, same⟩ := List.append_eq_singleton_iff.1 whole.symm |>.resolve_right (by simp)
    cases same
    exact List.mem_singleton_self _
  · rw [List.mem_singleton.1 mem]
    exact ⟨[], [], rfl, balanced_nil⟩

theorem refers (id : NodeId) (name : String) : Contributes [.refers id name] [] := by
  refine ⟨rfl, fun x => ⟨fun ⟨before, after, whole, _⟩ => ?_, nofun⟩⟩
  have mem : Mark.declares x ∈ [Mark.refers id name] := whole ▸ by simp
  cases List.mem_singleton.1 mem

theorem append (h : Contributes text names) (k : Contributes more names') :
    Contributes (text ++ more) (names ++ names') where
  balanced := h.balanced.append_iff.2 k.balanced
  introduces name := by
    rw [introduces_append h.balanced, h.introduces, k.introduces, List.mem_append]

theorem declaring (names : List String) : Contributes (declaring names) names := by
  induction names with
  | nil => exact nil
  | cons name names ih => exact (declares name).append ih

/-- What is declared in a scope is not declared outside. -/
theorem inScope (names : List String) (h : Balanced text) : Contributes (inScope names text) [] := by
  have inner : Balanced (Lox.declaring names ++ text) :=
    (declaring names).balanced.append_iff.2 h
  have whole : Lox.inScope names text = .enter :: (Lox.declaring names ++ text ++ [.leave]) := by
    simp [Lox.inScope]
  rw [whole]
  generalize Lox.declaring names ++ text = inside at inner
  constructor
  · show level (inside ++ [.leave]) 1 = some 0
    rw [level_append, inner.inside]
    rfl
  · refine fun name => ⟨fun ⟨before, after, split, closed⟩ => ?_, nofun⟩
    cases before with
    | nil => cases split
    | cons m before =>
      obtain ⟨rfl, tail⟩ : .enter = m ∧ inside ++ [.leave] = before ++ .declares name :: after :=
        List.cons.inj split
      -- The declaration stands before the scope is left.
      obtain ⟨rest, rfl⟩ : ∃ rest, inside = before ++ rest := by
        obtain ⟨between, -, rest⟩ | ⟨between, rfl, -⟩ := List.append_eq_append_iff.1 tail
        · have mem : Mark.declares name ∈ [Mark.leave] := rest ▸ by simp
          cases List.mem_singleton.1 mem
        · exact ⟨between, rfl⟩
      obtain ⟨n, start⟩ := inner.start
      have opened : level before 1 = some (n + 1) := level_add start 1
      cases opened.symm.trans closed

theorem inClass (derived : Bool) (h : Balanced text) : Contributes (inClass derived text) [] := by
  cases derived with
  | false => exact inScope _ h
  | true => exact inScope _ (inScope _ h).balanced

end Contributes

/-! ### Nodes of a text -/

/-- A node that names a binding, with the text before it. -/
structure Node where
  before : List Mark
  id : NodeId
  name : String

/-- The nodes of a text, given what stands before it. -/
def nodes (before : List Mark) : List Mark → List Node
  | [] => []
  | .refers id name :: text => ⟨before, id, name⟩ :: nodes (before ++ [.refers id name]) text
  | m :: text => nodes (before ++ [m]) text

def programNodes (program : List Stmt) : List Node := nodes [] (Stmt.marksAll program)

theorem nodes_append (before text more : List Mark) :
    nodes before (text ++ more) = nodes before text ++ nodes (before ++ text) more := by
  induction text generalizing before with
  | nil => rw [List.append_nil]; rfl
  | cons m text ih =>
    have next := ih (before ++ [m])
    rw [List.append_assoc, List.singleton_append] at next
    cases m with
    | refers id name => exact congrArg (⟨before, id, name⟩ :: ·) next
    | enter | leave | declares => exact next

/-! ### Identities -/

theorem nodes_ids (before text : List Mark) :
    (nodes before text).map Node.id = text.filterMap Mark.id? := by
  induction text generalizing before with
  | nil => rfl
  | cons m text ih =>
    cases m with
    | refers id name => exact congrArg (id :: ·) (ih _)
    | enter | leave | declares => exact ih _

theorem inScope_ids (names : List String) (text : List Mark) :
    (inScope names text).filterMap Mark.id? = text.filterMap Mark.id? := by
  have bare : (declaring names).filterMap Mark.id? = [] := by
    rw [declaring, List.filterMap_map]
    exact List.filterMap_eq_nil_iff.2 fun _ _ => rfl
  rw [inScope, List.filterMap_append, List.filterMap_append, List.filterMap_append, bare]
  exact List.append_nil _

theorem inClass_ids (derived : Bool) (text : List Mark) :
    (inClass derived text).filterMap Mark.id? = text.filterMap Mark.id? := by
  cases derived with
  | false => exact inScope_ids _ _
  | true => exact (inScope_ids _ _).trans (inScope_ids _ _)

mutual

/-- The nodes of a text are those of the tree. -/
theorem expr_ids : (e : Expr) → (e.marks.filterMap Mark.id?).Perm e.ids
  | .literal _ => .refl _
  | .unary _ right => expr_ids right
  | .binary left _ right => by
    rw [Expr.marks, List.filterMap_append]
    exact (expr_ids left).append (expr_ids right)
  | .logical left _ right => by
    rw [Expr.marks, List.filterMap_append]
    exact (expr_ids left).append (expr_ids right)
  | .group inner => expr_ids inner
  | .variable _ _ => .refl _
  | .assign id _ value => ((expr_ids value).cons id).trans (List.perm_append_singleton id _).symm
  | .call callee _ arguments => by
    rw [Expr.marks, List.filterMap_append]
    exact (expr_ids callee).append (exprs_ids arguments)
  | .get object _ => expr_ids object
  | .set object _ value => by
    rw [Expr.marks, List.filterMap_append]
    exact ((expr_ids object).append (expr_ids value)).trans List.perm_append_comm
  | .this _ _ => .refl _
  | .super _ _ _ => .refl _

theorem exprs_ids : (es : List Expr) → ((Expr.marksAll es).filterMap Mark.id?).Perm (Expr.idsAll es)
  | [] => .refl _
  | e :: es => by
    rw [Expr.marksAll, List.filterMap_append]
    exact (expr_ids e).append (exprs_ids es)

end

theorem expr?_ids (o : Option Expr) :
    ((Expr.marksOption o).filterMap Mark.id?).Perm (Expr.idsOption o) := by
  cases o with
  | none => exact .refl _
  | some e => exact expr_ids e

mutual

theorem stmt_ids : (s : Stmt) → (s.marks.filterMap Mark.id?).Perm s.ids
  | .expression e => expr_ids e
  | .print e => expr_ids e
  | .var _ initializer => expr?_ids initializer
  | .block body => by
    rw [Stmt.marks, inScope_ids]
    exact stmts_ids body
  | .ite condition thenBranch none => by
    rw [Stmt.marks, List.filterMap_append]
    exact (expr_ids condition).append (stmt_ids thenBranch)
  | .ite condition thenBranch (some elseBranch) => by
    rw [Stmt.marks, List.filterMap_append, List.filterMap_append]
    exact (expr_ids condition).append ((stmt_ids thenBranch).append (stmt_ids elseBranch))
  | .while condition body => by
    rw [Stmt.marks, List.filterMap_append]
    exact (expr_ids condition).append (stmt_ids body)
  | .break _ => .refl _
  | .function d => routine_ids d
  | .return _ value => expr?_ids value
  | .class name superclass methods => by
    rw [Stmt.marks, List.filterMap_append, List.filterMap_append, inClass_ids]
    exact (expr?_ids superclass).append (routines_ids methods)

theorem stmts_ids : (ss : List Stmt) → ((Stmt.marksAll ss).filterMap Mark.id?).Perm (Stmt.idsAll ss)
  | [] => .refl _
  | s :: ss => by
    rw [Stmt.marksAll, List.filterMap_append]
    exact (stmt_ids s).append (stmts_ids ss)

theorem routine_ids : (d : FunctionDecl) → (d.marks.filterMap Mark.id?).Perm d.ids
  | .mk _ _ body => by
    rw [FunctionDecl.marks, inScope_ids]
    exact stmts_ids body

theorem routines_ids : (ds : List FunctionDecl) →
    ((FunctionDecl.marksAll ds).filterMap Mark.id?).Perm (FunctionDecl.idsAll ds)
  | [] => .refl _
  | d :: ds => by
    rw [FunctionDecl.marksAll, List.filterMap_append]
    exact (routine_ids d).append (routines_ids ds)

end

end Binding

end Lox
