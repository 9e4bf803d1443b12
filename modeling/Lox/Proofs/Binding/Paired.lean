import Lox.Proofs.Binding.Context
import Lox.Proofs.Tree.Paired

/-!
# Walks over paired trees

The walk sees names only. Over trees in step it keeps the same scopes, records the same distances for
nodes that go together and finds the same faults (`paired_stmts`).
-/

namespace Lox.Binding

abbrev PairedRecord (P : Pairing) (r r' : NodeId × Nat) : Prop := P.ids r.1 r'.1 ∧ r.2 = r'.2

/-- Two walks that came the same way since they were `v` and `v'`. -/
structure PairedWalk (P : Pairing) (v v' w w' : Walk) : Prop where
  scopes : w.scopes = w'.scopes
  records : ∃ new new', w.records = new ++ v.records ∧ w'.records = new' ++ v'.records ∧
    List.Forall₂ (PairedRecord P) new new'
  faults : ∃ more more', w.faults = v.faults ++ more ∧ w'.faults = v'.faults ++ more' ∧
    List.Forall₂ (PairedDiagnostic P) more more'

theorem PairedWalk.start (P : Pairing) {v v' : Walk} (same : v.scopes = v'.scopes) :
    PairedWalk P v v' v v' :=
  ⟨same, ⟨[], [], rfl, rfl, .nil⟩,
    ⟨[], [], (List.append_nil _).symm, (List.append_nil _).symm, .nil⟩⟩

section Steps

variable {P : Pairing} {v v' w w' : Walk} (h : PairedWalk P v v' w w')

include h

theorem PairedWalk.openScope (scope : Scope) :
    PairedWalk P v v' (w.openScope scope) (w'.openScope scope) :=
  { h with scopes := congrArg (scope :: ·) h.scopes }

theorem PairedWalk.closeScope : PairedWalk P v v' w.closeScope w'.closeScope :=
  { h with scopes := congrArg List.tail h.scopes }

theorem PairedWalk.rescope (scopes : List Scope) :
    PairedWalk P v v' { w with scopes } { w' with scopes } :=
  { h with scopes := rfl }

theorem PairedWalk.fault {place place' : Token} (paired : PairedToken P place place')
    (cause : BindingFault) : PairedWalk P v v' (w.fault place cause) (w'.fault place' cause) := by
  obtain ⟨more, more', known, known', same⟩ := h.faults
  refine { h with faults := ⟨more ++ [.binding place cause], more' ++ [.binding place' cause],
    ?_, ?_, List.rel_append same (.cons (.binding paired cause) .nil)⟩ }
  · rw [← List.append_assoc, ← known]
    rfl
  · rw [← List.append_assoc, ← known']
    rfl

theorem PairedWalk.faultIf {c : Prop} [Decidable c] {place place' : Token}
    (paired : PairedToken P place place') (cause : BindingFault) :
    PairedWalk P v v' (if c then w.fault place cause else w)
      (if c then w'.fault place' cause else w') := by
  split
  · exact h.fault paired cause
  · exact h

theorem PairedWalk.declare {name name' : Token} (paired : PairedToken P name name') :
    PairedWalk P v v' (w.declare name) (w'.declare name') := by
  unfold Walk.declare
  rw [← h.scopes, ← paired.lexeme]
  split
  · exact h
  · split
    · exact h.fault paired _
    · exact h.rescope _

theorem PairedWalk.define {name name' : Token} (paired : PairedToken P name name') :
    PairedWalk P v v' (w.define name) (w'.define name') := by
  unfold Walk.define
  rw [← h.scopes, ← paired.lexeme]
  split
  · exact h
  · exact h.rescope _

theorem PairedWalk.refer {id id' : NodeId} (node : P.ids id id') (name : String) :
    PairedWalk P v v' (w.refer id name) (w'.refer id' name) := by
  unfold Walk.refer Walk.distance?
  rw [← h.scopes]
  split
  · next distance _ =>
    obtain ⟨new, new', known, known', same⟩ := h.records
    exact ⟨rfl, ⟨(id, distance) :: new, (id', distance) :: new',
      congrArg ((id, distance) :: ·) known, congrArg ((id', distance) :: ·) known',
      .cons ⟨node, rfl⟩ same⟩, h.faults⟩
  · exact h

theorem PairedWalk.isPending {name name' : Token} (paired : PairedToken P name name') :
    w.isPending name.lexeme = w'.isPending name'.lexeme := by
  unfold Walk.isPending
  rw [h.scopes, paired.lexeme]

theorem PairedWalk.this (c : Context) {id id' : NodeId} {keyword keyword' : Token}
    (node : P.ids id id') (paired : PairedToken P keyword keyword') :
    PairedWalk P v v' (Binding.this c w id keyword) (Binding.this c w' id' keyword') := by
  unfold Binding.this
  split
  · exact h.fault paired _
  · rw [← paired.lexeme]
    exact h.refer node _

theorem PairedWalk.super (c : Context) {id id' : NodeId} {keyword keyword' : Token}
    (node : P.ids id id') (paired : PairedToken P keyword keyword') :
    PairedWalk P v v' (Binding.super c w id keyword) (Binding.super c w' id' keyword') := by
  unfold Binding.super
  rw [← paired.lexeme]
  cases c.family with
  | none => exact (h.fault paired _).refer node _
  | base => exact (h.fault paired _).refer node _
  | derived => exact h.refer node _

theorem PairedWalk.checkReturn (c : Context) {keyword keyword' : Token}
    (paired : PairedToken P keyword keyword') (hasValue : Bool) :
    PairedWalk P v v' (Binding.checkReturn c w keyword hasValue)
      (Binding.checkReturn c w' keyword' hasValue) :=
  (h.faultIf paired _).faultIf paired _

theorem PairedWalk.checkSuperclass {name name' : Token} {e e' : Expr}
    (paired : PairedToken P name name') (same : PairedExpr P e e') :
    PairedWalk P v v' (Binding.checkSuperclass w name e) (Binding.checkSuperclass w' name' e') := by
  cases same with
  | «variable» _ named =>
    unfold Binding.checkSuperclass
    dsimp only
    rw [← paired.lexeme, ← named.lexeme]
    exact h.faultIf named _
  | literal | unary | binary | logical | group | assign | call | get | set | this | super => exact h

theorem PairedWalk.openClass (derived : Bool) :
    PairedWalk P v v' (Binding.openClass w derived) (Binding.openClass w' derived) := by
  cases derived with
  | true => exact (h.openScope _).openScope _
  | false => exact h.openScope _

theorem PairedWalk.closeClass (derived : Bool) :
    PairedWalk P v v' (Binding.closeClass w derived) (Binding.closeClass w' derived) := by
  cases derived with
  | true => exact h.closeScope.closeScope
  | false => exact h.closeScope

omit h in
theorem PairedWalk.params {w w' : Walk} (h : PairedWalk P v v' w w') {names names' : List Token}
    (paired : List.Forall₂ (PairedToken P) names names') :
    PairedWalk P v v' (Binding.params w names) (Binding.params w' names') := by
  induction paired generalizing w w' with
  | nil => exact h
  | cons first _ ih => exact ih ((h.declare first).define first)

end Steps

/-! ### Expressions -/

section Trees

variable {P : Pairing} {v v' : Walk}

mutual

theorem paired_expr (c : Context) : (e : Expr) → {e' : Expr} → {w w' : Walk} →
    PairedExpr P e e' → PairedWalk P v v' w w' → PairedWalk P v v' (expr c w e) (expr c w' e')
  | .literal _, _, _, _, .literal _, h => h
  | .unary _ right, _, _, _, .unary _ operand, h => (paired_expr c right operand h :)
  | .binary left _ right, _, _, _, .binary first _ second, h =>
    (paired_expr c right second (paired_expr c left first h) :)
  | .logical left _ right, _, _, _, .logical first _ second, h =>
    (paired_expr c right second (paired_expr c left first h) :)
  | .group inner, _, _, _, .group same, h => (paired_expr c inner same h :)
  | .variable _ _, _, _, _, .variable node named, h => by
    unfold expr
    rw [← h.isPending named, ← named.lexeme]
    exact (h.faultIf named _).refer node _
  | .assign _ _ value, _, _, _, .assign node named same, h => by
    unfold expr
    rw [← named.lexeme]
    exact (paired_expr c value same h).refer node _
  | .call callee _ arguments, _, _, _, .call called _ given, h =>
    (paired_exprs c arguments given (paired_expr c callee called h) :)
  | .get object _, _, _, _, .get owner _, h => (paired_expr c object owner h :)
  | .set object _ value, _, _, _, .set owner _ same, h =>
    (paired_expr c object owner (paired_expr c value same h) :)
  | .this _ _, _, _, _, .this node place, h => h.this c node place
  | .super _ _ _, _, _, _, .super node place _, h => h.super c node place

theorem paired_exprs (c : Context) : (es : List Expr) → {es' : List Expr} → {w w' : Walk} →
    List.Forall₂ (PairedExpr P) es es' → PairedWalk P v v' w w' →
    PairedWalk P v v' (exprs c w es) (exprs c w' es')
  | [], _, _, _, .nil, h => h
  | e :: es, _, _, _, .cons first others, h =>
    (paired_exprs c es others (paired_expr c e first h) :)

end

theorem paired_expr? (c : Context) {o o' : Option Expr} {w w' : Walk}
    (same : Option.Rel (PairedExpr P) o o') (h : PairedWalk P v v' w w') :
    PairedWalk P v v' (expr? c w o) (expr? c w' o') := by
  cases same with
  | none => exact h
  | some paired => exact paired_expr c _ paired h

theorem paired_classHead (c : Context) {name name' : Token} {o o' : Option Expr} {w w' : Walk}
    (named : PairedToken P name name') (same : Option.Rel (PairedExpr P) o o')
    (h : PairedWalk P v v' w w') :
    PairedWalk P v v' (classHead c w name o) (classHead c w' name' o') := by
  have declared := (h.declare named).define named
  cases same with
  | none => exact declared
  | some paired => exact paired_expr _ _ paired (declared.checkSuperclass named paired)

/-! ### Statements -/

theorem methodBody_paired {name name' : Token} (named : PairedToken P name name') :
    methodBody name = methodBody name' := by
  unfold methodBody
  rw [named.lexeme]

mutual

theorem paired_stmt (c : Context) : (s : Stmt) → {s' : Stmt} → {w w' : Walk} →
    PairedStmt P s s' → PairedWalk P v v' w w' → PairedWalk P v v' (stmt c w s) (stmt c w' s')
  | .expression e, _, _, _, .expression same, h => paired_expr c e same h
  | .print e, _, _, _, .print same, h => paired_expr c e same h
  | .var _ _, _, _, _, .var named value, h =>
    (paired_expr? c value (h.declare named)).define named
  | .block body, _, _, _, .block same, h => (paired_stmts c body same (h.openScope [])).closeScope
  | .ite condition thenBranch none, _, _, _, .ite test yes .none, h =>
    (paired_stmt c thenBranch yes (paired_expr c condition test h) :)
  | .ite condition thenBranch (some elseBranch), _, _, _, .ite test yes (.some no), h =>
    (paired_stmt c elseBranch no (paired_stmt c thenBranch yes (paired_expr c condition test h)) :)
  | .while condition body, _, _, _, .while test lap, h =>
    (paired_stmt c body lap (paired_expr c condition test h) :)
  | .break _, _, _, _, .break _, h => h
  | .function (.mk name ps body), _, _, _, .function (.mk named parameters same), h =>
    paired_routine _ (.mk name ps body) (.mk named parameters same)
      ((h.declare named).define named)
  | .return _ _, _, _, _, .return place same, h => by
    unfold stmt
    rw [← rel_isSome same]
    exact paired_expr? c same (h.checkReturn c place _)
  | .class _ _ methods, _, _, _, .class named parent same, h => by
    unfold stmt
    rw [← rel_isSome parent]
    exact (paired_routines _ methods same ((paired_classHead c named parent h).openClass
      _)).closeClass _

theorem paired_stmts (c : Context) : (ss : List Stmt) → {ss' : List Stmt} → {w w' : Walk} →
    PairedBody P ss ss' → PairedWalk P v v' w w' →
    PairedWalk P v v' (stmts c w ss) (stmts c w' ss')
  | [], _, _, _, .nil, h => h
  | s :: ss, _, _, _, .cons first others, h =>
    (paired_stmts c ss others (paired_stmt c s first h) :)

theorem paired_routine (c : Context) : (d : FunctionDecl) → {d' : FunctionDecl} → {w w' : Walk} →
    PairedDecl P d d' → PairedWalk P v v' w w' →
    PairedWalk P v v' (routine c w d) (routine c w' d')
  | .mk _ _ body, _, _, _, .mk _ parameters same, h =>
    (paired_stmts c body same ((h.openScope []).params parameters)).closeScope

theorem paired_routines (c : Context) : (ds : List FunctionDecl) → {ds' : List FunctionDecl} →
    {w w' : Walk} → List.Forall₂ (PairedDecl P) ds ds' → PairedWalk P v v' w w' →
    PairedWalk P v v' (routines c w ds) (routines c w' ds')
  | [], _, _, _, .nil, h => h
  | .mk name ps body :: ds, _, _, _, .cons (.mk named parameters same) others, h => by
    unfold routines
    rw [← methodBody_paired named]
    exact paired_routines c ds others
      (paired_routine _ (.mk name ps body) (.mk named parameters same) h)

end

end Trees

end Lox.Binding
