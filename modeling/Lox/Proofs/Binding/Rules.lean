import Lox.Proofs.Binding.Occurrence
import Lox.Proofs.Binding.Scope
import Lox.Proofs.Grammar.Formed
import Lox.Session

/-!
# The static rules

The walk over a program that was read finds no fault just if the program keeps seven rules, each of
which is about the places where something occurs and nothing else (`bind_clean_iff`).
-/

namespace Lox.Binding

/-- What the static rules ask of a program. -/
structure Lawful (program : List Stmt) : Prop where
  /-- No local scope declares a name twice. -/
  distinct : ∀ a names, (a, .scope names) ∈ programOccurrences program →
    (names.map (·.lexeme)).Nodup
  /-- No local variable is read in its own initializer. -/
  unread : ∀ a name initializer, (a, .variable name initializer) ∈ programOccurrences program →
    name.lexeme ∉ initializer.reads
  returns : ∀ a keyword value, (a, .return keyword value) ∈ programOccurrences program →
    ∃ f, a.routine = some f
  /-- No initializer returns a value. -/
  initializers : ∀ a keyword e, (a, .return keyword (some e)) ∈ programOccurrences program →
    ∀ d, a.routine = some (.method d) → d.name.lexeme ≠ initializerName
  this : ∀ a id keyword, (a, .this id keyword) ∈ programOccurrences program →
    ∃ family, a.family = some family
  super : ∀ a id keyword method, (a, .super id keyword method) ∈ programOccurrences program →
    ∃ family e, a.family = some family ∧ family.superclass = some e
  /-- No class inherits from itself. -/
  superclasses : ∀ a name id superclass,
    (a, .class name (some (.variable id superclass))) ∈ programOccurrences program →
    superclass.lexeme ≠ name.lexeme

/-- What the rules ask of one place. -/
def Allowed (a : Around) : Occurrence → Prop
  | .scope names => (names.map (·.lexeme)).Nodup
  | .variable name initializer => name.lexeme ∉ initializer.reads
  | .return _ value => (∃ f, a.routine = some f) ∧
    (value.isSome → ∀ d, a.routine = some (.method d) → d.name.lexeme ≠ initializerName)
  | .this _ _ => ∃ family, a.family = some family
  | .super _ _ _ => ∃ family e, a.family = some family ∧ family.superclass = some e
  | .class name superclass =>
    ∀ id other, superclass = some (.variable id other) → other.lexeme ≠ name.lexeme

def AllAllowed (places : List (Around × Occurrence)) : Prop := ∀ p ∈ places, Allowed p.1 p.2

theorem allAllowed_nil : AllAllowed [] := List.forall_mem_nil _

theorem allAllowed_cons {p : Around × Occurrence} {places : List (Around × Occurrence)} :
    AllAllowed (p :: places) ↔ Allowed p.1 p.2 ∧ AllAllowed places :=
  List.forall_mem_cons

theorem allAllowed_append {first second : List (Around × Occurrence)} :
    AllAllowed (first ++ second) ↔ AllAllowed first ∧ AllAllowed second :=
  List.forall_mem_append

theorem lawful_iff {program : List Stmt} :
    Lawful program ↔ AllAllowed (programOccurrences program) := by
  constructor
  · intro h p known
    obtain ⟨a, place⟩ := p
    cases place with
    | scope names => exact h.distinct a names known
    | «variable» name initializer => exact h.unread a name initializer known
    | «return» keyword value =>
      refine ⟨h.returns a keyword value known, fun given => ?_⟩
      obtain ⟨e, rfl⟩ := Option.isSome_iff_exists.1 given
      exact h.initializers a keyword e known
    | this id keyword => exact h.this a id keyword known
    | super id keyword method => exact h.super a id keyword method known
    | «class» name superclass =>
      intro id other same
      exact h.superclasses a name id other (same ▸ known)
  · intro h
    exact {
      distinct := fun _ _ known => h _ known
      unread := fun _ _ _ known => h _ known
      returns := fun _ _ _ known => (h _ known).1
      initializers := fun _ _ _ known => (h _ known).2 rfl
      this := fun _ _ _ known => h _ known
      super := fun _ _ _ _ known => h _ known
      superclasses := fun _ _ id other known => h _ known id other rfl }

/-! ### What is around a place -/

/-- The walk keeps of what is around a node only what it checks. -/
def bodyOf : Option Enclosing → Body
  | none => .topLevel
  | some (.function _) => .function
  | some (.method d) => methodBody d.name

def familyOf : Option ClassDecl → Family
  | none => .none
  | some family => if family.superclass.isSome then .derived else .base

def contextOf (a : Around) : Context := ⟨bodyOf a.routine, familyOf a.family⟩

theorem methodBody_initializer {name : Token} :
    methodBody name = .initializer ↔ name.lexeme = initializerName := by
  unfold methodBody
  by_cases same : name.lexeme = initializerName
  · simp [same]
  · simp [same]

theorem bodyOf_topLevel {f : Option Enclosing} : bodyOf f = .topLevel ↔ f = none := by
  cases f with
  | none => exact ⟨fun _ => rfl, fun _ => rfl⟩
  | some f =>
    refine ⟨fun same => ?_, nofun⟩
    cases f with
    | function d => nomatch same
    | method d =>
      have impossible : methodBody d.name = .topLevel := same
      unfold methodBody at impossible
      split at impossible <;> nomatch impossible

theorem bodyOf_initializer {f : Option Enclosing} :
    bodyOf f = .initializer ↔ ∃ d, f = some (.method d) ∧ d.name.lexeme = initializerName := by
  cases f with
  | none => exact ⟨nofun, fun ⟨_, same, _⟩ => nomatch same⟩
  | some f =>
    cases f with
    | function d => exact ⟨nofun, fun ⟨_, same, _⟩ => nomatch same⟩
    | method d =>
      have here : bodyOf (some (.method d)) = methodBody d.name := rfl
      rw [here, methodBody_initializer]
      refine ⟨fun named => ⟨d, rfl, named⟩, fun ⟨d', same, named⟩ => ?_⟩
      obtain rfl := Enclosing.method.inj (Option.some.inj same)
      exact named

/-! ### Names that are free -/

/-- The names differ, and the innermost scope declares none of them. -/
def Vacant (scopes : List Scope) (names : List Token) : Prop :=
  ∀ scope, scopes.head? = some scope →
    (names.map (·.lexeme)).Nodup ∧ ∀ t ∈ names, scope.lookup t.lexeme = none

theorem vacant_nil (scopes : List Scope) : Vacant scopes [] :=
  fun _ _ => ⟨List.nodup_nil, by simp⟩

theorem vacant_one {scope : Scope} {outer : List Scope} {name : Token} :
    Vacant (scope :: outer) [name] ↔ scope.lookup name.lexeme = none := by
  simp [Vacant]

/-- In a new scope only the names themselves may clash. -/
theorem vacant_inner {outer : List Scope} {names : List Token} :
    Vacant ([] :: outer) names ↔ (names.map (·.lexeme)).Nodup := by
  simp [Vacant]

theorem declare_clean {w : Walk} {name : Token} :
    (w.declare name).faults = [] ↔ w.faults = [] ∧ Vacant w.scopes [name] := by
  unfold Walk.declare
  cases scopes : w.scopes with
  | nil => simp [Vacant]
  | cons scope outer =>
    rw [vacant_one]
    dsimp only
    cases scope.lookup name.lexeme with
    | none => exact ⟨fun clean => ⟨clean, rfl⟩, And.left⟩
    | some defined =>
      refine ⟨fun clean => absurd clean ?_, fun both => nomatch both.2⟩
      simp [Walk.fault]

/-- A name that is declared and defined is in the innermost scope, whether or not it was new. -/
theorem introduce_lookup {w : Walk} {scope : Scope} {outer : List Scope}
    (scopes : w.scopes = scope :: outer) (name : Token) :
    ∃ scope', ((w.declare name).define name).scopes = scope' :: outer ∧
      Updates scope name.lexeme true scope' := by
  have define : ∀ w' : Walk, w'.scopes = scope :: outer →
      ∃ scope', (w'.define name).scopes = scope' :: outer ∧
        Updates scope name.lexeme true scope' := by
    intro w' same
    unfold Walk.define
    rw [same]
    exact ⟨_, rfl, updates_cons scope name.lexeme true⟩
  unfold Walk.declare
  rw [scopes]
  dsimp only
  split
  · exact define _ scopes
  · exact ⟨_, rfl, updates_twice (updates_cons scope name.lexeme false) (updates_cons _ _ true)⟩

theorem introduce_settled {w : Walk} (h : Settled w.scopes) (name : Token) :
    Settled ((w.declare name).define name).scopes := by
  cases scopes : w.scopes with
  | nil =>
    have same : ((w.declare name).define name).scopes = [] := by
      simp [Walk.declare, Walk.define, scopes]
    rw [same]
    exact Settled.nil
  | cons scope outer =>
    obtain ⟨scope', same, update⟩ := introduce_lookup scopes name
    rw [same]
    exact (scopes ▸ h).update update

theorem vacant_cons (w : Walk) (name : Token) (names : List Token) :
    Vacant w.scopes (name :: names) ↔
      Vacant w.scopes [name] ∧ Vacant ((w.declare name).define name).scopes names := by
  cases scopes : w.scopes with
  | nil =>
    have same : ((w.declare name).define name).scopes = [] := by
      simp [Walk.declare, Walk.define, scopes]
    simp [Vacant, same]
  | cons scope outer =>
    obtain ⟨scope', same, update⟩ := introduce_lookup scopes name
    rw [same]
    simp only [Vacant, List.head?_cons, Option.some.injEq, forall_eq', List.map_cons,
      List.nodup_cons, List.mem_map, List.mem_cons, forall_eq_or_imp, update _]
    constructor
    · intro ⟨⟨other, distinct⟩, free, rest⟩
      refine ⟨by simp [free], distinct, fun t mem => ?_⟩
      rw [if_neg fun clash => other ⟨t, mem, clash⟩]
      exact rest t mem
    · intro ⟨⟨_, free, _⟩, distinct, rest⟩
      refine ⟨⟨fun ⟨t, mem, clash⟩ => ?_, distinct⟩, free, fun t mem => ?_⟩
      · have taken := rest t mem
        rw [if_pos clash] at taken
        exact absurd taken (by simp)
      · have taken := rest t mem
        split at taken
        · exact absurd taken (by simp)
        · exact taken

theorem params_clean (w : Walk) (names : List Token) :
    (params w names).faults = [] ↔ w.faults = [] ∧ Vacant w.scopes names := by
  unfold params
  induction names generalizing w with
  | nil => exact ⟨fun clean => ⟨clean, vacant_nil _⟩, And.left⟩
  | cons name names ih =>
    rw [List.foldl_cons, ih, define_faults, declare_clean, vacant_cons w name names, and_assoc]

theorem params_settled {w : Walk} (h : Settled w.scopes) (names : List Token) :
    Settled (params w names).scopes := by
  unfold params
  induction names generalizing w with
  | nil => exact h
  | cons name names ih => exact ih (introduce_settled h name)

theorem vacant_append (w : Walk) (first second : List Token) :
    Vacant w.scopes (first ++ second) ↔
      Vacant w.scopes first ∧ Vacant (params w first).scopes second := by
  unfold params
  induction first generalizing w with
  | nil => exact ⟨fun free => ⟨vacant_nil _, free⟩, And.right⟩
  | cons name names ih =>
    rw [List.cons_append, vacant_cons, ih, List.foldl_cons, vacant_cons w name names, and_assoc]

/-! ### Expressions -/

theorem isPending_congr {w w' : Walk} (same : w.scopes = w'.scopes) (x : String) :
    w.isPending x = w'.isPending x := by
  unfold Walk.isPending
  rw [same]

theorem isPending_settled {w : Walk} (h : Settled w.scopes) (x : String) :
    w.isPending x = false := by
  unfold Walk.isPending
  cases scopes : w.scopes with
  | nil => rfl
  | cons scope outer =>
    have defined := h scope (scopes ▸ List.mem_cons_self) x
    simp only [beq_eq_false_iff_ne]
    exact defined

theorem refer_faults (w : Walk) (id : NodeId) (name : String) :
    (w.refer id name).faults = w.faults := by
  unfold Walk.refer
  split <;> rfl

theorem this_clean (a : Around) (w : Walk) (id : NodeId) (keyword : Token) :
    (this (contextOf a) w id keyword).faults = [] ↔
      w.faults = [] ∧ ∃ family, a.family = some family := by
  unfold this contextOf familyOf
  cases a.family with
  | none => simp [Walk.fault]
  | some family => cases superclass : family.superclass <;> simp [refer_faults, superclass]

theorem super_clean (a : Around) (w : Walk) (id : NodeId) (keyword : Token) :
    (super (contextOf a) w id keyword).faults = [] ↔
      w.faults = [] ∧ ∃ family e, a.family = some family ∧ family.superclass = some e := by
  unfold super contextOf familyOf
  cases a.family with
  | none => simp [Walk.fault, refer_faults]
  | some family => cases superclass : family.superclass <;> simp [Walk.fault, refer_faults, superclass]

/-- Nothing that is read is pending, and all that occurs is allowed. -/
def Fine (w : Walk) (reads : List String) (places : List (Around × Occurrence)) : Prop :=
  (∀ x ∈ reads, w.isPending x = false) ∧ AllAllowed places

theorem fine_nil (w : Walk) : Fine w [] [] := ⟨by simp, allAllowed_nil⟩

theorem fine_append {w : Walk} {reads reads' : List String}
    {places places' : List (Around × Occurrence)} :
    Fine w (reads ++ reads') (places ++ places') ↔ Fine w reads places ∧ Fine w reads' places' := by
  unfold Fine
  rw [List.forall_mem_append, allAllowed_append, and_and_and_comm]

theorem fine_congr {w w' : Walk} (same : w.scopes = w'.scopes) (reads : List String)
    (places : List (Around × Occurrence)) : Fine w reads places ↔ Fine w' reads places := by
  unfold Fine
  simp only [isPending_congr same]

theorem fine_settled {w : Walk} (h : Settled w.scopes) {reads : List String}
    {places : List (Around × Occurrence)} : Fine w reads places ↔ AllAllowed places :=
  ⟨And.right, fun allowed => ⟨fun x _ => isPending_settled h x, allowed⟩⟩

theorem variable_clean (a : Around) (w : Walk) (id : NodeId) (name : Token) :
    (expr (contextOf a) w (.variable id name)).faults = [] ↔
      w.faults = [] ∧ Fine w [name.lexeme] [] := by
  rw [expr, refer_faults]
  cases pending : w.isPending name.lexeme with
  | true => simp [Fine, Walk.fault, pending]
  | false => simp [Fine, pending, allAllowed_nil]

mutual

theorem expr_clean (a : Around) : (w : Walk) → (e : Expr) →
    ((expr (contextOf a) w e).faults = [] ↔ w.faults = [] ∧ Fine w e.reads (e.occurrences a))
  | w, .literal _ => ⟨fun clean => ⟨clean, fine_nil w⟩, And.left⟩
  | w, .unary _ right => expr_clean a w right
  | w, .binary left _ right => by
    rw [expr, expr_clean a _ right, expr_clean a w left, fine_congr (expr_scopes _ w left),
      Expr.reads, Expr.occurrences, fine_append, and_assoc]
  | w, .logical left _ right => by
    rw [expr, expr_clean a _ right, expr_clean a w left, fine_congr (expr_scopes _ w left),
      Expr.reads, Expr.occurrences, fine_append, and_assoc]
  | w, .group inner => expr_clean a w inner
  | w, .variable id name => variable_clean a w id name
  | w, .assign id name value => by
    rw [expr, refer_faults]
    exact expr_clean a w value
  | w, .call callee _ arguments => by
    rw [expr, exprs_clean a _ arguments, expr_clean a w callee, fine_congr (expr_scopes _ w callee),
      Expr.reads, Expr.occurrences, fine_append, and_assoc]
  | w, .get object _ => expr_clean a w object
  | w, .set object _ value => by
    -- The walk looks at the value first.
    rw [expr, expr_clean a _ object, expr_clean a w value, fine_congr (expr_scopes _ w value),
      Expr.reads, Expr.occurrences, fine_append, and_assoc, and_comm (a := Fine w value.reads _)]
  | w, .this id keyword => by
    rw [expr, this_clean, Expr.reads, Expr.occurrences]
    simp [Fine, allAllowed_cons, allAllowed_nil, Allowed]
  | w, .super id keyword method => by
    rw [expr, super_clean, Expr.reads, Expr.occurrences]
    simp [Fine, allAllowed_cons, allAllowed_nil, Allowed]

theorem exprs_clean (a : Around) : (w : Walk) → (es : List Expr) →
    ((exprs (contextOf a) w es).faults = [] ↔
      w.faults = [] ∧ Fine w (Expr.readsAll es) (Expr.occurrencesAll a es))
  | w, [] => ⟨fun clean => ⟨clean, fine_nil w⟩, And.left⟩
  | w, e :: es => by
    rw [exprs, exprs_clean a _ es, expr_clean a w e, fine_congr (expr_scopes _ w e),
      Expr.readsAll, Expr.occurrencesAll, fine_append, and_assoc]

end

theorem expr_clean_settled {a : Around} {w : Walk} (h : Settled w.scopes) (e : Expr) :
    (expr (contextOf a) w e).faults = [] ↔ w.faults = [] ∧ AllAllowed (e.occurrences a) := by
  rw [expr_clean, fine_settled h]

theorem expr?_clean_settled {a : Around} {w : Walk} (h : Settled w.scopes) (o : Option Expr) :
    (expr? (contextOf a) w o).faults = [] ↔
      w.faults = [] ∧ AllAllowed (Expr.occurrencesOption a o) := by
  cases o with
  | none => exact ⟨fun clean => ⟨clean, allAllowed_nil⟩, And.left⟩
  | some e => exact expr_clean_settled h e

/-! ### Statements -/

theorem Outer.isEmpty {before after : List Scope} (h : Outer before after) :
    after.isEmpty = before.isEmpty := by
  have length := h.length
  cases before <;> cases after <;> simp_all

theorem declared?_none {s : Stmt} (quiet : s.declares = false) : s.declared? = none := by
  cases s with
  | var => nomatch quiet
  | function => nomatch quiet
  | «class» => nomatch quiet
  | expression | print | block | ite | «while» | «break» | «return» => rfl

/-- A statement introduces the name that it declares, and no other. -/
theorem stmt_introduces (c : Context) : (w : Walk) → (s : Stmt) → {inLoop : Bool} →
    s.Formed inLoop → (stmt c w s).scopes = (params w s.declared?.toList).scopes
  | w, .expression e, _, _ => expr_scopes c w e
  | w, .print e, _, _ => expr_scopes c w e
  | w, .var name initializer, _, _ => by
    show ((expr? c (w.declare name) initializer).define name).scopes =
      ((w.declare name).define name).scopes
    unfold Walk.define
    rw [expr?_scopes]
    cases scopes : (w.declare name).scopes with
    | nil =>
      show (expr? c (w.declare name) initializer).scopes = (w.declare name).scopes
      exact expr?_scopes c _ initializer
    | cons scope outer => rfl
  | w, .block body, _, _ => closeScope_scopes (stmts_outer c _ body)
  | w, .ite condition thenBranch none, _, formed => by
    rw [stmt, stmt_introduces c _ thenBranch formed.1, declared?_none formed.2]
    exact expr_scopes c w condition
  | w, .ite condition thenBranch (some elseBranch), _, formed => by
    rw [stmt, stmt_introduces c _ elseBranch formed.2.1, declared?_none formed.2.2]
    show (stmt c _ thenBranch).scopes = _
    rw [stmt_introduces c _ thenBranch formed.1.1, declared?_none formed.1.2]
    exact expr_scopes c w condition
  | w, .while condition body, _, formed => by
    rw [stmt, stmt_introduces c _ body formed.1, declared?_none formed.2]
    exact expr_scopes c w condition
  | _, .break _, _, _ => rfl
  | _, .function (.mk _ _ _), _, _ => routine_scopes _ _ _
  | w, .return keyword value, _, _ => by
    rw [stmt, expr?_scopes, checkReturn_scopes]
    rfl
  | w, .class name superclass methods, _, _ => class_scopes c w name superclass methods

theorem checkReturn_clean (a : Around) (w : Walk) (keyword : Token) (value : Option Expr) :
    (checkReturn (contextOf a) w keyword value.isSome).faults = [] ↔
      w.faults = [] ∧ Allowed a (.return keyword value) := by
  have inside : (contextOf a).body = .topLevel ↔ a.routine = none := bodyOf_topLevel
  have initializer : (contextOf a).body = .initializer ↔
      ∃ d, a.routine = some (.method d) ∧ d.name.lexeme = initializerName := bodyOf_initializer
  unfold checkReturn Allowed
  by_cases top : a.routine = none
  · have start : (contextOf a).body ≠ .initializer := by
      rw [inside.2 top]
      nofun
    simp [inside.2 top, top, Walk.fault]
  · rw [if_neg fun same => top (inside.1 same)]
    split
    · next both =>
      obtain ⟨d, mine, named⟩ := initializer.1 both.2
      refine ⟨fun clean => absurd clean (by simp [Walk.fault]), fun allowed => ?_⟩
      exact absurd named (allowed.2.2 both.1 d mine)
    · next other =>
      refine ⟨fun clean => ⟨clean, Option.ne_none_iff_exists'.1 top, fun given d mine named => ?_⟩,
        And.left⟩
      exact other ⟨given, initializer.2 ⟨d, mine, named⟩⟩

/-- In the initializer of a new variable, only the variable itself is pending. -/
theorem declare_pending {w : Walk} {name : Token} (h : Settled w.scopes)
    (vacant : Vacant w.scopes [name]) (x : String) :
    (w.declare name).isPending x = (!w.scopes.isEmpty && x == name.lexeme) := by
  unfold Walk.declare Walk.isPending
  cases scopes : w.scopes with
  | nil => simp [scopes]
  | cons scope outer =>
    rw [scopes, vacant_one] at vacant
    simp only [vacant, Option.isSome_none, Bool.false_eq_true, if_false, List.lookup_cons,
      List.isEmpty_cons, Bool.not_false, Bool.true_and]
    by_cases same : x = name.lexeme
    · simp [same]
    · have defined := h scope (scopes ▸ List.mem_cons_self) x
      rw [beq_false_of_ne same]
      simpa using defined

theorem var_clean {a : Around} {w : Walk} (h : Settled w.scopes) (name : Token)
    (initializer : Option Expr) :
    (stmt (contextOf a) w (.var name initializer)).faults = [] ↔ w.faults = [] ∧
      Vacant w.scopes [name] ∧
      AllAllowed (Stmt.occurrences a (!w.scopes.isEmpty) (.var name initializer)) := by
  rw [stmt, define_faults]
  cases initializer with
  | none =>
    rw [expr?, declare_clean, Stmt.occurrences]
    simp [allAllowed_nil]
  | some e =>
    rw [expr?, expr_clean, declare_clean, and_assoc]
    refine and_congr_right fun _ => and_congr_right fun vacant => ?_
    rw [Stmt.occurrences, allAllowed_append]
    refine and_congr_left fun _ => ?_
    simp only [declare_pending h vacant]
    cases w.scopes with
    | nil => simp [allAllowed_nil]
    | cons scope outer =>
      simp only [List.isEmpty_cons, Bool.not_false, Bool.true_and, beq_eq_false_iff_ne, if_true,
        allAllowed_cons, allAllowed_nil, and_true, Allowed]
      exact ⟨fun other mem => other _ mem rfl, fun other x mem same => other (same ▸ mem)⟩

theorem classHead_clean {a : Around} {w : Walk} (h : Settled w.scopes) {name : Token}
    {superclass : Option Expr} (shape : IsName superclass) :
    (classHead (contextOf a) w name superclass).faults = [] ↔ w.faults = [] ∧
      Vacant w.scopes [name] ∧ Allowed a (.class name superclass) := by
  have settled := introduce_settled h name
  cases superclass with
  | none =>
    rw [classHead, define_faults, declare_clean]
    simp [Allowed]
  | some e =>
    obtain ⟨id, other, rfl⟩ := shape e rfl
    have quiet : ∀ c : Context, ∀ w' : Walk, Settled w'.scopes →
        (expr c w' (.variable id other)).faults = w'.faults := by
      intro c w' settled
      rw [expr, refer_faults, isPending_settled settled]
      rfl
    rw [classHead, quiet _ _ (by rw [checkSuperclass_scopes]; exact settled)]
    unfold checkSuperclass
    by_cases same : other.lexeme = name.lexeme
    · simp [same, Walk.fault, Allowed]
    · simp [same, Allowed, define_faults, declare_clean]

mutual

theorem stmt_clean (a : Around) : (w : Walk) → (s : Stmt) → {inLoop : Bool} → s.Formed inLoop →
    Settled w.scopes →
    ((stmt (contextOf a) w s).faults = [] ↔ w.faults = [] ∧ Vacant w.scopes s.declared?.toList ∧
      AllAllowed (s.occurrences a (!w.scopes.isEmpty)))
  | w, .expression e, _, _, settled => by
    rw [stmt, expr_clean_settled settled]
    simp [Stmt.declared?, vacant_nil, Stmt.occurrences]
  | w, .print e, _, _, settled => by
    rw [stmt, expr_clean_settled settled]
    simp [Stmt.declared?, vacant_nil, Stmt.occurrences]
  | w, .var name initializer, _, _, settled => var_clean settled name initializer
  | w, .block body, _, formed, settled => by
    have inner := stmts_clean a (w.openScope []) body formed settled.inner
    have scopes : (w.openScope []).scopes = [] :: w.scopes := rfl
    rw [scopes, vacant_inner] at inner
    simp only [Stmt.declared?, Option.toList_none, vacant_nil, true_and, Stmt.occurrences,
      allAllowed_cons]
    exact inner
  | w, .ite condition thenBranch none, _, formed, settled => by
    have scopes := expr_scopes (contextOf a) w condition
    have branch := stmt_clean a (expr (contextOf a) w condition) thenBranch formed.1
      (scopes ▸ settled)
    rw [scopes, declared?_none formed.2] at branch
    rw [stmt, branch, expr_clean_settled settled]
    simp [Stmt.declared?, vacant_nil, Stmt.occurrences, allAllowed_append, and_assoc]
  | w, .ite condition thenBranch (some elseBranch), _, formed, settled => by
    have scopes := expr_scopes (contextOf a) w condition
    have first := stmt_clean a (expr (contextOf a) w condition) thenBranch formed.1.1
      (scopes ▸ settled)
    have between := stmt_introduces (contextOf a) (expr (contextOf a) w condition) thenBranch
      formed.1.1
    rw [declared?_none formed.1.2] at first between
    have back := between.trans scopes
    have second := stmt_clean a (stmt (contextOf a) (expr (contextOf a) w condition) thenBranch)
      elseBranch formed.2.1 (back ▸ settled)
    rw [back, declared?_none formed.2.2] at second
    rw [stmt, second, first, scopes, expr_clean_settled settled]
    simp [Stmt.declared?, vacant_nil, Stmt.occurrences, allAllowed_append, and_assoc]
  | w, .while condition body, _, formed, settled => by
    have scopes := expr_scopes (contextOf a) w condition
    have lap := stmt_clean a (expr (contextOf a) w condition) body formed.1 (scopes ▸ settled)
    rw [scopes, declared?_none formed.2] at lap
    rw [stmt, lap, expr_clean_settled settled]
    simp [Stmt.declared?, vacant_nil, Stmt.occurrences, allAllowed_append, and_assoc]
  | w, .break _, _, _, _ => by
    rw [stmt]
    simp [Stmt.declared?, vacant_nil, Stmt.occurrences, allAllowed_nil]
  | w, .function (.mk name ps body), _, formed, settled => by
    have inner := routine_clean ⟨some (.function (.mk name ps body)), a.family⟩
      ((w.declare name).define name) (.mk name ps body) formed (introduce_settled settled name)
    rw [define_faults, declare_clean, and_assoc] at inner
    exact inner
  | w, .return keyword value, _, _, settled => by
    have scopes := checkReturn_scopes (contextOf a) w keyword value.isSome
    rw [stmt, expr?_clean_settled (scopes ▸ settled), checkReturn_clean]
    simp [Stmt.declared?, vacant_nil, Stmt.occurrences, allAllowed_cons, and_assoc]
  | w, .class name superclass methods, _, formed, settled => by
    have opened := openClass_scopes (contextOf a) w name superclass
    have inner := introduce_settled settled name
    have around : Settled (openClass (classHead (contextOf a) w name superclass)
        superclass.isSome).scopes := by
      rw [opened]
      split
      · exact settled_this (settled_super inner)
      · exact settled_this inner
    have body := routines_clean ⟨name, superclass, methods⟩
      { contextOf a with family := if superclass.isSome then .derived else .base } rfl
      (openClass (classHead (contextOf a) w name superclass) superclass.isSome) methods formed.2
      around
    have noneInHead : Expr.occurrencesOption a superclass = [] := by
      cases superclass with
      | none => rfl
      | some e =>
        obtain ⟨id, other, rfl⟩ := formed.1 e rfl
        rfl
    rw [(openClass_silent _ _).1, classHead_clean settled formed.1, and_assoc, and_assoc] at body
    rw [stmt, (closeClass_silent _ _).1, body, Stmt.occurrences, noneInHead, allAllowed_cons]
    rfl

theorem stmts_clean (a : Around) : (w : Walk) → (ss : List Stmt) → {inLoop : Bool} →
    Stmt.FormedAll inLoop ss → Settled w.scopes →
    ((stmts (contextOf a) w ss).faults = [] ↔ w.faults = [] ∧ Vacant w.scopes (Stmt.names ss) ∧
      AllAllowed (Stmt.occurrencesAll a (!w.scopes.isEmpty) ss))
  | w, [], _, _, _ => by
    rw [stmts]
    simp [Stmt.names, vacant_nil, Stmt.occurrencesAll, allAllowed_nil]
  | w, s :: ss, _, formed, settled => by
    have after := stmt_introduces (contextOf a) w s formed.1
    have others := stmts_clean a (stmt (contextOf a) w s) ss formed.2
      (after ▸ params_settled settled _)
    have depth := (stmt_outer (contextOf a) w s).isEmpty
    have names : Stmt.names (s :: ss) = s.declared?.toList ++ Stmt.names ss := by
      unfold Stmt.names
      rw [List.filterMap_cons]
      cases s.declared? <;> rfl
    rw [depth, after] at others
    rw [stmts, others, stmt_clean a w s formed.1 settled, names, vacant_append, Stmt.occurrencesAll,
      allAllowed_append, and_assoc, and_assoc, and_and_and_comm, and_assoc]

theorem routine_clean (a : Around) : (w : Walk) → (d : FunctionDecl) → d.Formed →
    Settled w.scopes →
    ((routine (contextOf a) w d).faults = [] ↔ w.faults = [] ∧ AllAllowed (d.occurrences a))
  | w, .mk name ps body, formed, settled => by
    have inner := stmts_clean a (params (w.openScope []) ps) body formed
      (params_settled settled.inner ps)
    have nonempty : (params (w.openScope []) ps).scopes.isEmpty = false :=
      (params_outer (w.openScope []) ps).isEmpty
    have scopes : (w.openScope []).scopes = [] :: w.scopes := rfl
    have faults : (w.openScope []).faults = w.faults := rfl
    rw [params_clean, nonempty, scopes, faults] at inner
    have whole := vacant_append (w.openScope []) ps (Stmt.names body)
    rw [scopes, vacant_inner] at whole
    show (stmts (contextOf a) (params (w.openScope []) ps) body).faults = [] ↔ _
    rw [inner, FunctionDecl.occurrences, allAllowed_cons, Allowed, whole, and_assoc, and_assoc]
    rfl

theorem routines_clean (family : ClassDecl) (c : Context) (same : c.family = familyOf (some family)) :
    (w : Walk) → (ds : List FunctionDecl) → FunctionDecl.FormedAll ds → Settled w.scopes →
    ((routines c w ds).faults = [] ↔
      w.faults = [] ∧ AllAllowed (FunctionDecl.occurrencesAll family ds))
  | w, [], _, _ => ⟨fun clean => ⟨clean, allAllowed_nil⟩, And.left⟩
  | w, .mk name ps body :: ds, formed, settled => by
    have here : { c with body := methodBody name } =
        contextOf ⟨some (.method (.mk name ps body)), some family⟩ := by
      rw [contextOf, same]
      rfl
    have first := routine_clean ⟨some (.method (.mk name ps body)), some family⟩ w
      (.mk name ps body) formed.1 settled
    have back := routine_scopes { c with body := methodBody name } w (.mk name ps body)
    have others := routines_clean family c same
      (routine { c with body := methodBody name } w (.mk name ps body)) ds formed.2 (back ▸ settled)
    rw [routines, others, here, first, FunctionDecl.occurrencesAll, allAllowed_append, and_assoc]

end

/-! ### Programs -/

theorem program_clean {body : List Stmt} (formed : Stmt.FormedAll false body) :
    (program body).faults = [] ↔ Lawful body := by
  have walked := stmts_clean ⟨none, none⟩ .start body formed Settled.nil
  rw [program_eq, lawful_iff]
  refine walked.trans ⟨fun both => both.2.2, fun allowed => ⟨rfl, ?_, allowed⟩⟩
  exact fun scope inner => absurd inner (by simp [Walk.start])

/-- A program that was read is bound without a fault just if it keeps the seven rules. -/
theorem bind_clean_iff {tokens : List Token} {nextId : NodeId} {program : List Stmt}
    (parsed : (Grammar.parse tokens nextId).result = .ok program) (m : Machine) :
    (m.bind program).1 = [] ↔ Lawful program :=
  program_clean (Grammar.parse_formed parsed)

/-- `class A { init() { return; } }` -/
def bareReturn : List Token :=
  [⟨.keyword .class, "class", 1⟩, ⟨.identifier, "A", 1⟩, ⟨.symbol .leftBrace, "\x7b", 1⟩,
    ⟨.identifier, "init", 1⟩, ⟨.symbol .leftParen, "(", 1⟩, ⟨.symbol .rightParen, ")", 1⟩,
    ⟨.symbol .leftBrace, "\x7b", 1⟩, ⟨.keyword .return, "return", 1⟩, ⟨.symbol .semicolon, ";", 1⟩,
    ⟨.symbol .rightBrace, "\x7d", 1⟩, ⟨.symbol .rightBrace, "\x7d", 1⟩]

/-- An initializer may return, but not a value. -/
theorem bind_clean_iff_bareReturn :
    let program : List Stmt := [.class ⟨.identifier, "A", 1⟩ none
      [.mk ⟨.identifier, "init", 1⟩ [] [.return ⟨.keyword .return, "return", 1⟩ none]]]
    (Grammar.parse bareReturn 0).result = .ok program ∧
      ((Machine.start [] .unlimited fun _ => 0).bind program).1 = [] ∧ Lawful program :=
  have parsed : (Grammar.parse bareReturn 0).result = .ok _ := rfl
  ⟨parsed, rfl, (bind_clean_iff parsed (Machine.start [] .unlimited fun _ => 0)).1 rfl⟩

end Lox.Binding
