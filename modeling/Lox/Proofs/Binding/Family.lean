import Lox.Proofs.Binding.Occurrence
import Lox.Proofs.Binding.Scope
import Lox.Proofs.Tree.Parts

/-!
# Classes around `super`

Some way out of every `super` lies the scope of `this` for its innermost class, and just outside of
that the scope of `super` that a run opens for the methods of this class (`program_housed`).
-/

namespace Lox

def ClassDecl.statement (k : ClassDecl) : Stmt := .class k.name k.superclass k.methods

theorem Token.Declarable.other {name : Token} (declarable : name.Declarable) {x : String}
    (keyword : x = "this" ∨ x = "super") : x ≠ name.lexeme := by
  rintro rfl
  exact keyword.elim declarable.1 declarable.2

namespace Binding

/-! ### Declarations between -/

/-- No declaration hides `this` or `super`. -/
def SameKeywords (before after : List Scope) : Prop :=
  ∀ x, x = "this" ∨ x = "super" → distance after x = distance before x

theorem SameKeywords.refl (scopes : List Scope) : SameKeywords scopes scopes := fun _ _ => rfl

theorem SameKeywords.trans {first second third : List Scope} (h : SameKeywords first second)
    (k : SameKeywords second third) : SameKeywords first third :=
  fun x keyword => (k x keyword).trans (h x keyword)

theorem same_entry {name : Token} (declarable : name.Declarable) (b : Bool) (s : Scope)
    (outer : List Scope) : SameKeywords (s :: outer) (((name.lexeme, b) :: s) :: outer) := by
  intro x keyword
  rw [distance_updates (updates_cons s name.lexeme b),
    if_neg (declarable.other keyword)]

theorem declare_same {name : Token} (declarable : name.Declarable) (w : Walk) :
    SameKeywords w.scopes (w.declare name).scopes := by
  unfold Walk.declare
  split
  · exact .refl _
  · next s outer scopes =>
    split
    · exact .refl _
    · rw [scopes]
      exact same_entry declarable false s outer

theorem define_same {name : Token} (declarable : name.Declarable) (w : Walk) :
    SameKeywords w.scopes (w.define name).scopes := by
  unfold Walk.define
  split
  · exact .refl _
  · next s outer scopes =>
    rw [scopes]
    exact same_entry declarable true s outer

theorem introduce_same {name : Token} (declarable : name.Declarable) (w : Walk) :
    SameKeywords w.scopes ((w.declare name).define name).scopes :=
  (declare_same declarable w).trans (define_same declarable _)

theorem params_same {names : List Token} (declarable : ∀ p ∈ names, p.Declarable) (w : Walk) :
    SameKeywords w.scopes (params w names).scopes := by
  unfold params
  induction names generalizing w with
  | nil => exact .refl _
  | cons name names ih =>
    obtain ⟨first, others⟩ := List.forall_mem_cons.1 declarable
    exact (introduce_same first w).trans (ih others _)

theorem stmt_same (c : Context) (w : Walk) {s : Stmt} (proper : s.Proper) :
    SameKeywords w.scopes (stmt c w s).scopes := by
  cases declares : s.declares with
  | false =>
    rw [stmt_scopes c w s proper declares]
    exact .refl _
  | true =>
    cases s with
    | var name initializer =>
      refine (declare_same proper.1 w).trans ?_
      rw [← expr?_scopes c (w.declare name) initializer]
      exact define_same proper.1 _
    | function d =>
      obtain ⟨name, ps, body⟩ := d
      rw [stmt, routine_scopes]
      exact introduce_same proper.1 w
    | «class» name superclass methods =>
      rw [class_scopes]
      exact introduce_same proper.1 w
    | expression | print | block | ite | «while» | «break» | «return» => cases declares

/-! ### Classes -/

section Classes

variable (program : List Stmt) (sites : List Site)

/-- The class is one of the program, the nodes stand in its methods, and its scopes are among
these. -/
structure Housed (k : ClassDecl) (nodes : List NodeId) (scopes : List Scope)
    (origins : List Origin) : Prop where
  part : PartOf program k.statement
  nodes : nodes ⊆ FunctionDecl.idsAll k.methods
  above : ∀ id superclass, k.superclass = some (.variable id superclass) →
    ∃ site ∈ sites, site.id = id ∧ site.name = superclass.lexeme
  reached : ∃ d, distance scopes "this" = some d ∧ (k.superclass.isSome →
    distance scopes "super" = some (d + 1) ∧ origins[d + 1]? = some (.super k.methods))

/-- The innermost class, if there is one. -/
def AllHoused (a : Around) (nodes : List NodeId) (scopes : List Scope) (origins : List Origin) :
    Prop :=
  ∀ k, a.family = some k → Housed program sites k nodes scopes origins

/-- Every `super` among the places is a site, and its class is around it. -/
def SupersHoused (places : List (Around × Occurrence)) (found : List Site) : Prop :=
  ∀ a id keyword method, (a, .super id keyword method) ∈ places →
    keyword.lexeme = "super" ∧ ∃ site ∈ found, site.id = id ∧ site.name = "super" ∧
      AllHoused program sites a [id] site.scopes site.origins

end Classes

section Rules

variable {program : List Stmt} {sites : List Site} {a : Around} {nodes : List NodeId}
  {scopes : List Scope} {origins : List Origin}

theorem AllHoused.narrow (h : AllHoused program sites a nodes scopes origins) {fewer : List NodeId}
    (sub : fewer ⊆ nodes) : AllHoused program sites a fewer scopes origins :=
  fun k family => { h k family with nodes := List.Subset.trans sub (h k family).nodes }

theorem AllHoused.left {more : List NodeId}
    (h : AllHoused program sites a (nodes ++ more) scopes origins) :
    AllHoused program sites a nodes scopes origins :=
  h.narrow (List.subset_append_left _ _)

theorem AllHoused.right {more : List NodeId}
    (h : AllHoused program sites a (nodes ++ more) scopes origins) :
    AllHoused program sites a more scopes origins :=
  h.narrow (List.subset_append_right _ _)

theorem AllHoused.same (h : AllHoused program sites a nodes scopes origins) {after : List Scope}
    (same : SameKeywords scopes after) : AllHoused program sites a nodes after origins := by
  intro k family
  obtain ⟨part, inside, above, d, this, super⟩ := h k family
  refine ⟨part, inside, above, d, (same _ (.inl rfl)).trans this, fun derived => ?_⟩
  obtain ⟨further, origin⟩ := super derived
  exact ⟨(same _ (.inr rfl)).trans further, origin⟩

theorem AllHoused.inner (h : AllHoused program sites a nodes scopes origins) (origin : Origin) :
    AllHoused program sites a nodes ([] :: scopes) (origin :: origins) := by
  intro k family
  obtain ⟨part, inside, above, d, this, super⟩ := h k family
  refine ⟨part, inside, above, d + 1, by simp [distance_cons, this], fun derived => ?_⟩
  obtain ⟨further, place⟩ := super derived
  exact ⟨by simp [distance_cons, further], place⟩

namespace SupersHoused

variable {places more : List (Around × Occurrence)} {found other : List Site}

theorem nil (found : List Site) : SupersHoused program sites [] found :=
  fun _ _ _ _ mem => absurd mem List.not_mem_nil

theorem mono (h : SupersHoused program sites places found) (sub : found ⊆ other) :
    SupersHoused program sites places other := by
  intro a id keyword method mem
  obtain ⟨spelled, site, inside, rest⟩ := h a id keyword method mem
  exact ⟨spelled, site, sub inside, rest⟩

theorem append (h : SupersHoused program sites places found)
    (k : SupersHoused program sites more other) :
    SupersHoused program sites (places ++ more) (found ++ other) := by
  intro a id keyword method mem
  rcases List.mem_append.1 mem with first | second
  · exact h.mono (List.subset_append_left _ _) a id keyword method first
  · exact k.mono (List.subset_append_right _ _) a id keyword method second

/-- A place that is no `super`. -/
theorem cons {p : Around × Occurrence} (other : ∀ id keyword method, p.2 ≠ .super id keyword method)
    (h : SupersHoused program sites places found) : SupersHoused program sites (p :: places) found := by
  intro a id keyword method mem
  rcases List.mem_cons.1 mem with rfl | rest
  · exact absurd rfl (other id keyword method)
  · exact h a id keyword method rest

end SupersHoused

/-! ### Expressions -/

mutual

theorem expr_housed (own : Option String) : (e : Expr) → e.Proper →
    AllHoused program sites a e.ids scopes origins →
    SupersHoused program sites (e.occurrences a) (exprSites scopes origins own e)
  | .literal _, _, _ => .nil _
  | .unary _ right, proper, h => expr_housed own right proper h
  | .binary left _ right, proper, h =>
    (expr_housed own left proper.1 h.left).append (expr_housed own right proper.2 h.right)
  | .logical left _ right, proper, h =>
    (expr_housed own left proper.1 h.left).append (expr_housed own right proper.2 h.right)
  | .group inner, proper, h => expr_housed own inner proper h
  | .variable _ _, _, _ => .nil _
  | .assign _ _ value, proper, h =>
    (expr_housed own value proper.2 h.left).mono (List.subset_append_left _ _)
  | .call callee _ arguments, proper, h =>
    (expr_housed own callee proper.1 h.left).append (exprs_housed own arguments proper.2 h.right)
  | .get object _, proper, h => expr_housed own object proper h
  | .set object _ value, proper, h =>
    ((expr_housed own object proper.1 h.right).append (expr_housed own value proper.2 h.left)).mono
      (List.append_subset.2 ⟨List.subset_append_right _ _, List.subset_append_left _ _⟩)
  | .this _ _, _, _ => .cons (fun _ _ _ => nofun) (.nil _)
  | .super id keyword method, proper, h => by
    intro a' id' keyword' method' mem
    obtain ⟨rfl, same⟩ := Prod.mk.inj (List.mem_singleton.1 mem)
    cases same
    exact ⟨proper, _, List.mem_singleton_self _, rfl, proper, h⟩

theorem exprs_housed (own : Option String) : (es : List Expr) → Expr.ProperAll es →
    AllHoused program sites a (Expr.idsAll es) scopes origins →
    SupersHoused program sites (Expr.occurrencesAll a es) (exprsSites scopes origins own es)
  | [], _, _ => .nil _
  | e :: es, proper, h =>
    (expr_housed own e proper.1 h.left).append (exprs_housed own es proper.2 h.right)

end

theorem expr?_housed (own : Option String) (o : Option Expr) (proper : Expr.ProperOption o)
    (h : AllHoused program sites a (Expr.idsOption o) scopes origins) :
    SupersHoused program sites (Expr.occurrencesOption a o) (expr?Sites scopes origins own o) := by
  cases o with
  | none => exact .nil _
  | some e => exact expr_housed own e proper h

theorem class_housed {name : Token} {superclass : Option Expr} {methods : List FunctionDecl}
    (part : PartOf program (.class name superclass methods)) (c : Context) (w : Walk)
    (above : expr?Sites ((w.declare name).define name).scopes origins (some name.lexeme) superclass ⊆
      sites) (method : FunctionDecl) :
    Housed program sites ⟨name, superclass, methods⟩ (FunctionDecl.idsAll methods)
      (openClass (classHead c w name superclass) superclass.isSome).scopes
      (.this method :: classOrigins origins superclass methods) := by
  refine ⟨part, List.Subset.refl _, fun id other same => ?_, 0, ?_, fun derived => ?_⟩
  · obtain rfl : superclass = _ := same
    exact ⟨_, above List.mem_cons_self, rfl, rfl⟩
  · rw [openClass_scopes]
    rfl
  · have derived : superclass.isSome = true := derived
    rw [openClass_scopes, classOrigins, if_pos derived, if_pos derived]
    exact ⟨rfl, rfl⟩

theorem superclass_proper {superclass : Option Expr} (h : IsSuperclass superclass) :
    Expr.ProperOption superclass := by
  cases superclass with
  | none => exact trivial
  | some e =>
    obtain ⟨id, name, rfl, declarable⟩ := h
    exact declarable

end Rules

/-! ### Statements -/

section Statements

variable {program : List Stmt} {sites : List Site}

mutual

theorem stmt_housed : (origins : List Origin) → (c : Context) → (w : Walk) → (s : Stmt) →
    (a : Around) → (isLocal : Bool) → s.Proper → PartOf program s →
    stmtSites origins c w s ⊆ sites → AllHoused program sites a s.ids w.scopes origins →
    SupersHoused program sites (s.occurrences a isLocal) (stmtSites origins c w s)
  | _, _, _, .expression e, _, _, proper, _, _, h => expr_housed none e proper h
  | _, _, _, .print e, _, _, proper, _, _, h => expr_housed none e proper h
  | _, _, _, .var _ none, _, _, _, _, _, _ => .nil _
  | _, _, w, .var name (some e), a, isLocal, proper, _, _, h => by
    have inner := expr_housed none e proper.2 (h.same (declare_same proper.1 w))
    cases isLocal with
    | false => exact inner
    | true => exact .cons (fun _ _ _ => nofun) inner
  | origins, c, w, .block body, a, _, proper, part, sub, h =>
    .cons (fun _ _ _ => nofun) (stmts_housed (.block body :: origins) c (w.openScope []) body a true
      proper (fun _ inside => part.inner inside) sub (h.inner _))
  | origins, c, w, .ite condition thenBranch none, a, isLocal, proper, part, sub, h => by
    obtain ⟨-, sub⟩ := List.append_subset.1 sub
    refine (expr_housed none condition proper.1 h.left).append ?_
    exact stmt_housed origins c (expr c w condition) thenBranch a isLocal proper.2.1
      (part.inner List.mem_cons_self) sub (expr_scopes c w condition ▸ h.right)
  | origins, c, w, .ite condition thenBranch (some elseBranch), a, isLocal, proper, part, sub, h => by
    obtain ⟨-, sub⟩ := List.append_subset.1 sub
    obtain ⟨first, second⟩ := List.append_subset.1 sub
    have branches : AllHoused program sites a (thenBranch.ids ++ elseBranch.ids)
        (expr c w condition).scopes origins := (expr_scopes c w condition).symm ▸ h.right
    refine (expr_housed none condition proper.1 h.left).append (SupersHoused.append ?_ ?_)
    · exact stmt_housed origins c _ thenBranch a isLocal proper.2.1.1
        (part.inner List.mem_cons_self) first branches.left
    · exact stmt_housed origins c _ elseBranch a isLocal proper.2.2.1
        (part.inner (List.mem_cons_of_mem _ List.mem_cons_self)) second
        (branches.right.same (stmt_same c _ proper.2.1.1))
  | origins, c, w, .while condition body, a, isLocal, proper, part, sub, h => by
    obtain ⟨-, sub⟩ := List.append_subset.1 sub
    refine (expr_housed none condition proper.1 h.left).append ?_
    exact stmt_housed origins c (expr c w condition) body a isLocal proper.2.1
      (part.inner List.mem_cons_self) sub (expr_scopes c w condition ▸ h.right)
  | _, _, _, .break _, _, _, _, _, _, _ => .nil _
  | origins, c, w, .function (.mk name ps body), a, _, proper, part, sub, h =>
    routine_housed origins { c with body := .function } ((w.declare name).define name)
      (.mk name ps body) ⟨some (.function (.mk name ps body)), a.family⟩ proper.2
      (fun _ inside => part.inner inside) sub (h.same (introduce_same proper.1 w))
  | _, _, _, .return _ value, _, _, proper, _, _, h =>
    .cons (fun _ _ _ => nofun) (expr?_housed none value proper h)
  | origins, c, w, .class name superclass methods, a, _, proper, part, sub, h => by
    obtain ⟨head, sub⟩ := List.append_subset.1 sub
    refine .cons (fun _ _ _ => nofun) (SupersHoused.append ?_ ?_)
    · exact expr?_housed _ superclass (superclass_proper proper.2.1)
        (h.left.same (introduce_same proper.1 w))
    · exact routines_housed _ _ _ methods ⟨name, superclass, methods⟩ proper.2.2
        (fun d declared s inside => part.inner (Stmt.body_children declared inside)) sub
        (class_housed part c w head)

theorem stmts_housed : (origins : List Origin) → (c : Context) → (w : Walk) → (ss : List Stmt) →
    (a : Around) → (isLocal : Bool) → Stmt.ProperAll ss → (∀ s ∈ ss, PartOf program s) →
    stmtsSites origins c w ss ⊆ sites → AllHoused program sites a (Stmt.idsAll ss) w.scopes origins →
    SupersHoused program sites (Stmt.occurrencesAll a isLocal ss) (stmtsSites origins c w ss)
  | _, _, _, [], _, _, _, _, _, _ => .nil _
  | origins, c, w, s :: ss, a, isLocal, proper, parts, sub, h => by
    obtain ⟨first, others⟩ := List.append_subset.1 sub
    obtain ⟨part, parts⟩ := List.forall_mem_cons.1 parts
    refine SupersHoused.append ?_ ?_
    · exact stmt_housed origins c w s a isLocal proper.1 part first h.left
    · exact stmts_housed origins c _ ss a isLocal proper.2 parts others
        (h.right.same (stmt_same c w proper.1))

theorem routine_housed : (origins : List Origin) → (c : Context) → (w : Walk) → (d : FunctionDecl) →
    (a : Around) → d.Proper → (∀ s ∈ d.body, PartOf program s) →
    routineSites origins c w d ⊆ sites → AllHoused program sites a d.ids w.scopes origins →
    SupersHoused program sites (d.occurrences a) (routineSites origins c w d)
  | origins, c, w, .mk name ps body, a, proper, parts, sub, h =>
    .cons (fun _ _ _ => nofun) (stmts_housed (.call (.mk name ps body) :: origins) c
      (params (w.openScope []) ps) body a true proper.2 parts sub
      ((h.inner _).same (params_same proper.1 _)))

theorem routines_housed : (origins : List Origin) → (c : Context) → (w : Walk) →
    (ds : List FunctionDecl) → (k : ClassDecl) → FunctionDecl.ProperAll ds →
    (∀ d ∈ ds, ∀ s ∈ d.body, PartOf program s) → routinesSites origins c w ds ⊆ sites →
    (∀ method, Housed program sites k (FunctionDecl.idsAll ds) w.scopes (.this method :: origins)) →
    SupersHoused program sites (FunctionDecl.occurrencesAll k ds) (routinesSites origins c w ds)
  | _, _, _, [], _, _, _, _, _ => .nil _
  | origins, c, w, .mk name ps body :: ds, k, proper, parts, sub, h => by
    obtain ⟨first, others⟩ := List.append_subset.1 sub
    obtain ⟨part, parts⟩ := List.forall_mem_cons.1 parts
    have each : ∀ method, AllHoused program sites ⟨some (.method (.mk name ps body)), some k⟩
        ((FunctionDecl.mk name ps body).ids ++ FunctionDecl.idsAll ds) w.scopes
        (.this method :: origins) := by
      intro method k' same
      cases same
      exact h method
    refine SupersHoused.append ?_ ?_
    · exact routine_housed _ _ w (.mk name ps body) _ proper.1 part first (each _).left
    · refine routines_housed origins c _ ds k proper.2 parts others fun method => ?_
      rw [routine_scopes]
      exact (each method).right k rfl

end

end Statements

theorem program_housed {program : List Stmt} (proper : Stmt.ProperAll program) :
    SupersHoused program (programSites program) (programOccurrences program)
      (programSites program) :=
  stmts_housed [] .program .start program ⟨none, none⟩ false proper
    (fun s top => ⟨s, top, Within.refl s⟩) (List.Subset.refl _) nofun

end Binding

end Lox
