import Lox.Proofs.Binding.Site

/-!
# What the walk does

An expression leaves the scopes as they are, and a statement changes only the innermost one
(`stmt_outer`). A walk without faults records the distances of the sites that it visits, and nothing
else (`stmt_walked`).
-/

namespace Lox.Binding

/-! ### Scopes -/

@[simp] theorem refer_scopes (w : Walk) (id : NodeId) (name : String) :
    (w.refer id name).scopes = w.scopes := by
  unfold Walk.refer
  split <;> rfl

@[simp] theorem this_scopes (c : Context) (w : Walk) (id : NodeId) (keyword : Token) :
    (this c w id keyword).scopes = w.scopes := by
  unfold this
  split
  · rfl
  · exact refer_scopes w id _

@[simp] theorem super_scopes (c : Context) (w : Walk) (id : NodeId) (keyword : Token) :
    (super c w id keyword).scopes = w.scopes := by
  unfold super
  rw [refer_scopes]
  split <;> rfl

mutual

@[simp] theorem expr_scopes (c : Context) : (w : Walk) → (e : Expr) → (expr c w e).scopes = w.scopes
  | _, .literal _ => rfl
  | w, .unary _ right => expr_scopes c w right
  | w, .binary left _ right => by rw [expr, expr_scopes, expr_scopes]
  | w, .logical left _ right => by rw [expr, expr_scopes, expr_scopes]
  | w, .group inner => expr_scopes c w inner
  | w, .variable _ _ => by
    rw [expr, refer_scopes]
    split <;> rfl
  | w, .assign _ _ value => by rw [expr, refer_scopes, expr_scopes]
  | w, .call callee _ arguments => by rw [expr, exprs_scopes, expr_scopes]
  | w, .get object _ => expr_scopes c w object
  | w, .set object _ value => by rw [expr, expr_scopes, expr_scopes]
  | w, .this _ _ => this_scopes c w _ _
  | w, .super _ _ _ => super_scopes c w _ _

@[simp] theorem exprs_scopes (c : Context) : (w : Walk) → (es : List Expr) →
    (exprs c w es).scopes = w.scopes
  | _, [] => rfl
  | w, e :: es => by rw [exprs, exprs_scopes, expr_scopes]

end

@[simp] theorem expr?_scopes (c : Context) (w : Walk) (o : Option Expr) :
    (expr? c w o).scopes = w.scopes := by
  cases o with
  | none => rfl
  | some e => exact expr_scopes c w e

@[simp] theorem checkReturn_scopes (c : Context) (w : Walk) (keyword : Token) (hasValue : Bool) :
    (checkReturn c w keyword hasValue).scopes = w.scopes := by
  unfold checkReturn
  dsimp only
  split <;> split <;> rfl

@[simp] theorem checkSuperclass_scopes (w : Walk) (name : Token) (e : Expr) :
    (checkSuperclass w name e).scopes = w.scopes := by
  unfold checkSuperclass
  split
  · split <;> rfl
  · rfl

@[simp] theorem classHead_scopes (c : Context) (w : Walk) (name : Token)
    (superclass : Option Expr) :
    (classHead c w name superclass).scopes = ((w.declare name).define name).scopes := by
  unfold classHead
  cases superclass with
  | none => rfl
  | some e => simp

/-- Only the innermost scope may differ. -/
structure Outer (before after : List Scope) : Prop where
  length : after.length = before.length
  tail : after.tail = before.tail

theorem Outer.refl (scopes : List Scope) : Outer scopes scopes := ⟨rfl, rfl⟩

theorem Outer.trans {a b c : List Scope} (h : Outer a b) (k : Outer b c) : Outer a c :=
  ⟨k.length.trans h.length, k.tail.trans h.tail⟩

theorem declare_outer (w : Walk) (name : Token) : Outer w.scopes (w.declare name).scopes := by
  unfold Walk.declare
  split
  · exact Outer.refl _
  · next scope outer h =>
    split
    · exact Outer.refl _
    · exact ⟨by simp [h], by simp [h]⟩

theorem define_outer (w : Walk) (name : Token) : Outer w.scopes (w.define name).scopes := by
  unfold Walk.define
  split
  · exact Outer.refl _
  · next scope outer h => exact ⟨by simp [h], by simp [h]⟩

theorem params_outer (w : Walk) (names : List Token) : Outer w.scopes (params w names).scopes := by
  unfold params
  induction names generalizing w with
  | nil => exact Outer.refl _
  | cons name names ih =>
    exact ((declare_outer w name).trans (define_outer _ name)).trans (ih _)

theorem closeScope_scopes {w w' : Walk} {scope : Scope}
    (h : Outer (w.openScope scope).scopes w'.scopes) : w'.closeScope.scopes = w.scopes :=
  h.tail

mutual

theorem stmt_outer (c : Context) : (w : Walk) → (s : Stmt) → Outer w.scopes (stmt c w s).scopes
  | w, .expression e => by
    rw [stmt, expr_scopes]
    exact Outer.refl _
  | w, .print e => by
    rw [stmt, expr_scopes]
    exact Outer.refl _
  | w, .var name initializer => by
    have declared := declare_outer w name
    have defined := define_outer (expr? c (w.declare name) initializer) name
    rw [expr?_scopes] at defined
    exact declared.trans defined
  | w, .block body => by
    rw [stmt, closeScope_scopes (stmts_outer c _ body)]
    exact Outer.refl _
  | w, .ite condition thenBranch none => by
    have branch := stmt_outer c (expr c w condition) thenBranch
    rwa [expr_scopes] at branch
  | w, .ite condition thenBranch (some elseBranch) => by
    have first := stmt_outer c (expr c w condition) thenBranch
    rw [expr_scopes] at first
    exact first.trans (stmt_outer c _ elseBranch)
  | w, .while condition body => by
    have inner := stmt_outer c (expr c w condition) body
    rwa [expr_scopes] at inner
  | w, .break _ => Outer.refl _
  | w, .function (.mk name ps body) => by
    rw [stmt, routine_scopes]
    exact (declare_outer w name).trans (define_outer _ name)
  | w, .return keyword value => by
    rw [stmt, expr?_scopes, checkReturn_scopes]
    exact Outer.refl _
  | w, .class name superclass methods => by
    have head := (declare_outer w name).trans (define_outer (w.declare name) name)
    rw [← classHead_scopes c w name superclass] at head
    cases superclass with
    | none =>
      have closed : (stmt c w (.class name none methods)).scopes
          = (classHead c w name none).scopes := by
        simp only [stmt, closeClass, Walk.closeScope, routines_scopes]
        rfl
      rwa [closed]
    | some e =>
      have closed : (stmt c w (.class name (some e) methods)).scopes
          = (classHead c w name (some e)).scopes := by
        simp only [stmt, closeClass, Walk.closeScope, routines_scopes]
        rfl
      rwa [closed]

theorem stmts_outer (c : Context) : (w : Walk) → (ss : List Stmt) →
    Outer w.scopes (stmts c w ss).scopes
  | _, [] => Outer.refl _
  | w, s :: ss => (stmt_outer c w s).trans (stmts_outer c (stmt c w s) ss)

theorem routine_scopes (c : Context) : (w : Walk) → (d : FunctionDecl) →
    (routine c w d).scopes = w.scopes
  | w, .mk _ ps body => by
    rw [routine]
    exact closeScope_scopes ((params_outer _ ps).trans (stmts_outer c _ body))

theorem routines_scopes (c : Context) : (w : Walk) → (ds : List FunctionDecl) →
    (routines c w ds).scopes = w.scopes
  | _, [] => rfl
  | w, .mk name ps body :: ds => by rw [routines, routines_scopes, routine_scopes]

end

theorem class_scopes (c : Context) (w : Walk) (name : Token) (superclass : Option Expr)
    (methods : List FunctionDecl) :
    (stmt c w (.class name superclass methods)).scopes
      = ((w.declare name).define name).scopes := by
  rw [← classHead_scopes c w name superclass]
  cases superclass with
  | none =>
    simp only [stmt, closeClass, Walk.closeScope, routines_scopes]
    rfl
  | some e =>
    simp only [stmt, closeClass, Walk.closeScope, routines_scopes]
    rfl

theorem openClass_scopes (c : Context) (w : Walk) (name : Token) (superclass : Option Expr) :
    (openClass (classHead c w name superclass) superclass.isSome).scopes =
      thisScope :: if superclass.isSome then superScope :: ((w.declare name).define name).scopes
        else ((w.declare name).define name).scopes := by
  rw [← classHead_scopes c w name superclass]
  cases superclass <;> rfl

/-- A statement that declares nothing leaves the scopes as they are. -/
theorem stmt_scopes (c : Context) : (w : Walk) → (s : Stmt) → s.Proper → s.declares = false →
    (stmt c w s).scopes = w.scopes
  | w, .expression e, _, _ => expr_scopes c w e
  | w, .print e, _, _ => expr_scopes c w e
  | w, .block body, _, _ => closeScope_scopes (stmts_outer c _ body)
  | w, .ite condition thenBranch none, proper, _ => by
    rw [stmt, stmt_scopes c _ thenBranch proper.2.1 proper.2.2, expr_scopes]
  | w, .ite condition thenBranch (some elseBranch), proper, _ => by
    rw [stmt, stmt_scopes c _ elseBranch proper.2.2.1 proper.2.2.2,
      stmt_scopes c _ thenBranch proper.2.1.1 proper.2.1.2, expr_scopes]
  | w, .while condition body, proper, _ => by
    rw [stmt, stmt_scopes c _ body proper.2.1 proper.2.2, expr_scopes]
  | _, .break _, _, _ => rfl
  | w, .return _ value, _, _ => by rw [stmt, expr?_scopes, checkReturn_scopes]
  | _, .var _ _, _, quiet | _, .function _, _, quiet | _, .class _ _ _, _, quiet => by
    exact absurd quiet (by simp [Stmt.declares])

/-! ### Records -/

/-- The record of a site that is bound in a scope. -/
def Site.record? (s : Site) : Option (NodeId × Nat) := (distance s.scopes s.name).map (s.id, ·)

/-- The records of sites in the order in which the walk keeps them. -/
def recordsOf (sites : List Site) : List (NodeId × Nat) := (sites.filterMap Site.record?).reverse

/-- The walk went on over these sites. -/
structure Walked (w w' : Walk) (sites : List Site) : Prop where
  faults : w.faults <+: w'.faults
  records : ∃ extra, w'.records = extra ++ w.records ∧ (∀ p ∈ extra, p.1 ∈ sites.map Site.id) ∧
    (w'.faults = [] → extra = recordsOf sites)

namespace Walked

theorem silent {w w' : Walk} (faults : w.faults <+: w'.faults) (records : w'.records = w.records) :
    Walked w w' [] :=
  ⟨faults, [], records, by simp, fun _ => rfl⟩

theorem clean {w w' : Walk} {sites : List Site} (h : Walked w w' sites) (none : w'.faults = []) :
    w.faults = [] :=
  List.prefix_nil.1 (none ▸ h.faults)

theorem trans {w w' w'' : Walk} {first second : List Site} (h : Walked w w' first)
    (k : Walked w' w'' second) : Walked w w'' (first ++ second) := by
  obtain ⟨extra, before, known, exact⟩ := h.records
  obtain ⟨extra', after, known', exact'⟩ := k.records
  refine ⟨h.faults.trans k.faults, extra' ++ extra, ?_, fun p mem => ?_, fun none => ?_⟩
  · rw [after, before, List.append_assoc]
  · rw [List.map_append, List.mem_append]
    rcases List.mem_append.1 mem with later | earlier
    · exact .inr (known' p later)
    · exact .inl (known p earlier)
  · rw [exact' none, exact (k.clean none)]
    simp [recordsOf]

theorem after {w w' w'' : Walk} {sites : List Site} (h : Walked w w' sites)
    (faults : w''.faults = w'.faults) (records : w''.records = w'.records) :
    Walked w w'' sites := by
  have step : Walked w' w'' [] := silent (faults ▸ List.prefix_refl _) records
  simpa using h.trans step

theorem before {w w' w'' : Walk} {sites : List Site} (faults : w.faults <+: w'.faults)
    (records : w'.records = w.records) (h : Walked w' w'' sites) : Walked w w'' sites :=
  (silent faults records).trans h

end Walked

theorem refer_walked (w : Walk) (id : NodeId) (name : String) (writes : Bool)
    (origins : List Origin) (own : Option String) :
    Walked w (w.refer id name) [⟨id, name, writes, w.scopes, origins, own⟩] := by
  unfold Walk.refer
  cases found : w.distance? name with
  | some d =>
    refine ⟨List.prefix_refl _, [(id, d)], rfl, by simp, fun _ => ?_⟩
    have site : distance w.scopes name = some d := found
    simp [recordsOf, Site.record?, site]
  | none =>
    refine ⟨List.prefix_refl _, [], rfl, by simp, fun _ => ?_⟩
    have site : distance w.scopes name = none := found
    simp [recordsOf, Site.record?, site]

theorem fault_faults (w : Walk) (place : Token) (cause : BindingFault) :
    w.faults <+: (w.fault place cause).faults :=
  List.prefix_append _ _

theorem declare_faults (w : Walk) (name : Token) : w.faults <+: (w.declare name).faults := by
  unfold Walk.declare
  split
  · exact List.prefix_refl _
  · split
    · exact fault_faults _ _ _
    · exact List.prefix_refl _

theorem declare_records (w : Walk) (name : Token) : (w.declare name).records = w.records := by
  unfold Walk.declare
  split
  · rfl
  · split <;> rfl

theorem define_faults (w : Walk) (name : Token) : (w.define name).faults = w.faults := by
  unfold Walk.define
  split <;> rfl

theorem define_records (w : Walk) (name : Token) : (w.define name).records = w.records := by
  unfold Walk.define
  split <;> rfl

theorem params_silent (w : Walk) (names : List Token) :
    w.faults <+: (params w names).faults ∧ (params w names).records = w.records := by
  unfold params
  induction names generalizing w with
  | nil => exact ⟨List.prefix_refl _, rfl⟩
  | cons name names ih =>
    obtain ⟨faults, records⟩ := ih ((w.declare name).define name)
    rw [define_faults] at faults
    rw [define_records, declare_records] at records
    exact ⟨(declare_faults w name).trans faults, records⟩

theorem this_walked (c : Context) (w : Walk) (id : NodeId) (keyword : Token)
    (origins : List Origin) (own : Option String) :
    Walked w (this c w id keyword) [⟨id, keyword.lexeme, false, w.scopes, origins, own⟩] := by
  unfold this
  split
  · refine ⟨fault_faults _ _ _, [], rfl, by simp, fun none => ?_⟩
    exact absurd none (by simp [Walk.fault])
  · exact refer_walked w id keyword.lexeme false origins own

theorem super_walked (c : Context) (w : Walk) (id : NodeId) (keyword : Token)
    (origins : List Origin) (own : Option String) :
    Walked w (super c w id keyword) [⟨id, keyword.lexeme, false, w.scopes, origins, own⟩] := by
  unfold super
  dsimp only
  split
  · exact Walked.before (fault_faults w keyword .superOutsideClass) rfl
      (refer_walked _ id keyword.lexeme false origins own)
  · exact Walked.before (fault_faults w keyword .superWithoutSuperclass) rfl
      (refer_walked _ id keyword.lexeme false origins own)
  · exact refer_walked w id keyword.lexeme false origins own

section Expressions

variable (c : Context) (origins : List Origin) (own : Option String)

mutual

theorem expr_walked : (w : Walk) → (e : Expr) →
    Walked w (expr c w e) (exprSites w.scopes origins own e)
  | w, .literal _ => Walked.silent (List.prefix_refl _) rfl
  | w, .unary _ right => expr_walked w right
  | w, .binary left _ right => by
    have second := expr_walked (expr c w left) right
    rw [expr_scopes] at second
    exact (expr_walked w left).trans second
  | w, .logical left _ right => by
    have second := expr_walked (expr c w left) right
    rw [expr_scopes] at second
    exact (expr_walked w left).trans second
  | w, .group inner => expr_walked w inner
  | w, .variable id name => by
    rw [expr]
    split
    · exact Walked.before (fault_faults w name .readInOwnInitializer) rfl
        (refer_walked _ id name.lexeme false origins own)
    · exact refer_walked w id name.lexeme false origins own
  | w, .assign id name value => by
    have second := refer_walked (expr c w value) id name.lexeme true origins own
    rw [expr_scopes] at second
    exact (expr_walked w value).trans second
  | w, .call callee _ arguments => by
    have second := exprs_walked (expr c w callee) arguments
    rw [expr_scopes] at second
    exact (expr_walked w callee).trans second
  | w, .get object _ => expr_walked w object
  | w, .set object _ value => by
    have second := expr_walked (expr c w value) object
    rw [expr_scopes] at second
    exact (expr_walked w value).trans second
  | w, .this id keyword => this_walked c w id keyword origins own
  | w, .super id keyword _ => super_walked c w id keyword origins own

theorem exprs_walked : (w : Walk) → (es : List Expr) →
    Walked w (exprs c w es) (exprsSites w.scopes origins own es)
  | w, [] => Walked.silent (List.prefix_refl _) rfl
  | w, e :: es => by
    have second := exprs_walked (expr c w e) es
    rw [expr_scopes] at second
    exact (expr_walked w e).trans second

end

theorem expr?_walked (w : Walk) (o : Option Expr) :
    Walked w (expr? c w o) (expr?Sites w.scopes origins own o) := by
  cases o with
  | none => exact Walked.silent (List.prefix_refl _) rfl
  | some e => exact expr_walked c origins own w e

end Expressions

theorem checkReturn_walked (c : Context) (w : Walk) (keyword : Token) (hasValue : Bool) :
    Walked w (checkReturn c w keyword hasValue) [] := by
  have step : ∀ (w : Walk) (p : Prop) [Decidable p] (cause : BindingFault),
      Walked w (if p then w.fault keyword cause else w) [] := by
    intro w p _ cause
    split
    · exact Walked.silent (fault_faults _ _ _) rfl
    · exact Walked.silent (List.prefix_refl _) rfl
  exact (step w _ _).trans (step _ _ _)

theorem classHead_visited (c : Context) (origins : List Origin) (w : Walk) (name : Token)
    (superclass : Option Expr) :
    Walked ((w.declare name).define name) (classHead c w name superclass)
      (expr?Sites ((w.declare name).define name).scopes origins (some name.lexeme) superclass) := by
  cases superclass with
  | none => exact Walked.silent (List.prefix_refl _) rfl
  | some e =>
    have checked : Walked ((w.declare name).define name)
        (checkSuperclass ((w.declare name).define name) name e) [] := by
      unfold checkSuperclass
      split
      · split
        · exact Walked.silent (fault_faults _ _ _) rfl
        · exact Walked.silent (List.prefix_refl _) rfl
      · exact Walked.silent (List.prefix_refl _) rfl
    have resolved := expr_walked { c with family := .derived } origins (some name.lexeme)
      (checkSuperclass ((w.declare name).define name) name e) e
    rw [checkSuperclass_scopes] at resolved
    exact checked.trans resolved

theorem classHead_walked (c : Context) (origins : List Origin) (w : Walk) (name : Token)
    (superclass : Option Expr) :
    Walked w (classHead c w name superclass)
      (expr?Sites ((w.declare name).define name).scopes origins (some name.lexeme) superclass) := by
  refine (classHead_visited c origins w name superclass).before ?_ ?_
  · rw [define_faults]
    exact declare_faults w name
  · rw [define_records, declare_records]

theorem openClass_silent (w : Walk) (derived : Bool) :
    (openClass w derived).faults = w.faults ∧ (openClass w derived).records = w.records := by
  cases derived <;> exact ⟨rfl, rfl⟩

theorem closeClass_silent (w : Walk) (derived : Bool) :
    (closeClass w derived).faults = w.faults ∧ (closeClass w derived).records = w.records := by
  cases derived <;> exact ⟨rfl, rfl⟩

mutual

theorem stmt_walked : (origins : List Origin) → (c : Context) → (w : Walk) → (s : Stmt) →
    Walked w (stmt c w s) (stmtSites origins c w s)
  | origins, c, w, .expression e => expr_walked c origins none w e
  | origins, c, w, .print e => expr_walked c origins none w e
  | origins, c, w, .var name initializer =>
    ((expr?_walked c origins none (w.declare name) initializer).after (define_faults _ name)
      (define_records _ name)).before (declare_faults w name) (declare_records w name)
  | origins, c, w, .block body =>
    have inner := stmts_walked (.block body :: origins) c (w.openScope []) body
    ⟨inner.faults, inner.records⟩
  | origins, c, w, .ite condition thenBranch none =>
    (expr_walked c origins none w condition).trans (stmt_walked origins c _ thenBranch)
  | origins, c, w, .ite condition thenBranch (some elseBranch) =>
    (expr_walked c origins none w condition).trans
      ((stmt_walked origins c _ thenBranch).trans (stmt_walked origins c _ elseBranch))
  | origins, c, w, .while condition body =>
    (expr_walked c origins none w condition).trans (stmt_walked origins c _ body)
  | _, _, _, .break _ => Walked.silent (List.prefix_refl _) rfl
  | origins, c, w, .function (.mk name ps body) =>
    (routine_walked origins { c with body := .function } _ (.mk name ps body)).before
      (by rw [define_faults]; exact declare_faults w name) (by rw [define_records, declare_records])
  | origins, c, w, .return keyword value => by
    have checked := checkReturn_walked c w keyword value.isSome
    have resolved := expr?_walked c origins none (checkReturn c w keyword value.isSome) value
    rw [checkReturn_scopes] at resolved
    exact checked.trans resolved
  | origins, c, w, .class name superclass methods => by
    have head := classHead_walked c origins w name superclass
    have opened := openClass_silent (classHead c w name superclass) superclass.isSome
    have body := routines_walked (classOrigins origins superclass methods)
      (classContext c superclass) (openClass (classHead c w name superclass) superclass.isSome)
      methods
    have closed := closeClass_silent (routines (classContext c superclass)
      (openClass (classHead c w name superclass) superclass.isSome) methods) superclass.isSome
    have inner := body.before (opened.1 ▸ List.prefix_refl _) opened.2
    exact head.trans (inner.after closed.1 closed.2)

theorem stmts_walked : (origins : List Origin) → (c : Context) → (w : Walk) → (ss : List Stmt) →
    Walked w (stmts c w ss) (stmtsSites origins c w ss)
  | _, _, _, [] => Walked.silent (List.prefix_refl _) rfl
  | origins, c, w, s :: ss =>
    (stmt_walked origins c w s).trans (stmts_walked origins c (stmt c w s) ss)

theorem routine_walked : (origins : List Origin) → (c : Context) → (w : Walk) → (d : FunctionDecl) →
    Walked w (routine c w d) (routineSites origins c w d)
  | origins, c, w, .mk name ps body =>
    have inner := (stmts_walked (.call (.mk name ps body) :: origins) c (params (w.openScope []) ps)
      body).before (params_silent (w.openScope []) ps).1 (params_silent (w.openScope []) ps).2
    ⟨inner.faults, inner.records⟩

theorem routines_walked : (origins : List Origin) → (c : Context) → (w : Walk) →
    (ds : List FunctionDecl) → Walked w (routines c w ds) (routinesSites origins c w ds)
  | _, _, _, [] => Walked.silent (List.prefix_refl _) rfl
  | origins, c, w, .mk name ps body :: ds =>
    (routine_walked (.this (.mk name ps body) :: origins) { c with body := methodBody name } w
      (.mk name ps body)).trans (routines_walked origins c _ ds)

end

/-- A program without faults records the distances of its sites. -/
theorem program_records {body : List Stmt} (clean : (program body).faults = []) :
    (program body).records = recordsOf (programSites body) := by
  rw [program_eq] at clean ⊢
  obtain ⟨extra, records, -, exact⟩ := (stmts_walked [] .program .start body).records
  have empty : Walk.start.records = [] := rfl
  rw [empty, List.append_nil] at records
  exact records.trans (exact clean)

end Lox.Binding
