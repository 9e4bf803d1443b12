import Lox.Fault
import Lox.Proofs.Grammar.Unnumbered
import Lox.Proofs.Tree.Shape
import Mathlib.Data.List.Forall2

/-!
# Trees in step

Two trees of one shape may differ in the identities of their nodes and in the lines of their tokens.
A `Pairing` says which identities and which lines go together. Paired trees stay so with any other
identities that go together in order (`PairedStmt.along`), and when the identities of one of them
are changed (`PairedBody.renumber`).
-/

namespace Lox

/-! ### Optional parts -/

theorem rel_mono {α β : Type} {R S : α → β → Prop} {a : Option α} {b : Option β}
    (h : Option.Rel R a b) (imp : ∀ x y, R x y → S x y) : Option.Rel S a b := by
  cases h with
  | none => exact .none
  | some holds => exact .some (imp _ _ holds)

theorem rel_bind {α β γ δ : Type} {R : α → β → Prop} {S : γ → δ → Prop} {a : Option α}
    {b : Option β} (h : Option.Rel R a b) {f : α → Option γ} {g : β → Option δ}
    (next : ∀ x y, R x y → Option.Rel S (f x) (g y)) : Option.Rel S (a.bind f) (b.bind g) := by
  cases h with
  | none => exact .none
  | some holds => exact next _ _ holds

theorem rel_isSome {α β : Type} {R : α → β → Prop} {a : Option α} {b : Option β}
    (h : Option.Rel R a b) : a.isSome = b.isSome := by
  cases h <;> rfl

/-! ### What goes together -/

structure Pairing where
  ids : NodeId → NodeId → Prop
  lines : Nat → Nat → Prop

namespace Pairing

/-- Lines that go together for `P` do so for `Q`. -/
def Lined (P Q : Pairing) : Prop := ∀ l l', P.lines l l' → Q.lines l l'

/-- What goes together for `P` does so for `Q`. -/
structure Le (P Q : Pairing) : Prop where
  ids : ∀ i j, P.ids i j → Q.ids i j
  lines : P.Lined Q

/-- Lines decide alone, and any two identities go together. -/
def ofLines (lines : Nat → Nat → Prop) : Pairing := ⟨fun _ _ => True, lines⟩

end Pairing

structure PairedToken (P : Pairing) (t t' : Token) : Prop where
  kind : t.kind = t'.kind
  lexeme : t.lexeme = t'.lexeme
  line : P.lines t.line t'.line

theorem PairedToken.along {P Q : Pairing} {t t' : Token} (h : PairedToken P t t')
    (lines : P.Lined Q) : PairedToken Q t t' :=
  ⟨h.kind, h.lexeme, lines _ _ h.line⟩

inductive PairedExpr (P : Pairing) : Expr → Expr → Prop
  | literal (l : Literal) : PairedExpr P (.literal l) (.literal l)
  | unary {operator operator' : Token} {right right' : Expr}
      (symbol : PairedToken P operator operator') (operand : PairedExpr P right right') :
      PairedExpr P (.unary operator right) (.unary operator' right')
  | binary {left left' right right' : Expr} {operator operator' : Token}
      (first : PairedExpr P left left') (symbol : PairedToken P operator operator')
      (second : PairedExpr P right right') :
      PairedExpr P (.binary left operator right) (.binary left' operator' right')
  | logical {left left' right right' : Expr} {operator operator' : Token}
      (first : PairedExpr P left left') (symbol : PairedToken P operator operator')
      (second : PairedExpr P right right') :
      PairedExpr P (.logical left operator right) (.logical left' operator' right')
  | group {inner inner' : Expr} (same : PairedExpr P inner inner') :
      PairedExpr P (.group inner) (.group inner')
  | variable {id id' : NodeId} {name name' : Token} (node : P.ids id id')
      (named : PairedToken P name name') : PairedExpr P (.variable id name) (.variable id' name')
  | assign {id id' : NodeId} {name name' : Token} {value value' : Expr} (node : P.ids id id')
      (named : PairedToken P name name') (same : PairedExpr P value value') :
      PairedExpr P (.assign id name value) (.assign id' name' value')
  | call {callee callee' : Expr} {paren paren' : Token} {arguments arguments' : List Expr}
      (called : PairedExpr P callee callee') (place : PairedToken P paren paren')
      (given : List.Forall₂ (PairedExpr P) arguments arguments') :
      PairedExpr P (.call callee paren arguments) (.call callee' paren' arguments')
  | get {object object' : Expr} {name name' : Token} (owner : PairedExpr P object object')
      (named : PairedToken P name name') : PairedExpr P (.get object name) (.get object' name')
  | set {object object' value value' : Expr} {name name' : Token}
      (owner : PairedExpr P object object') (named : PairedToken P name name')
      (same : PairedExpr P value value') :
      PairedExpr P (.set object name value) (.set object' name' value')
  | this {id id' : NodeId} {keyword keyword' : Token} (node : P.ids id id')
      (place : PairedToken P keyword keyword') :
      PairedExpr P (.this id keyword) (.this id' keyword')
  | super {id id' : NodeId} {keyword keyword' method method' : Token} (node : P.ids id id')
      (place : PairedToken P keyword keyword') (named : PairedToken P method method') :
      PairedExpr P (.super id keyword method) (.super id' keyword' method')

mutual

inductive PairedStmt (P : Pairing) : Stmt → Stmt → Prop
  | expression {e e' : Expr} (same : PairedExpr P e e') :
      PairedStmt P (.expression e) (.expression e')
  | print {e e' : Expr} (same : PairedExpr P e e') : PairedStmt P (.print e) (.print e')
  | var {name name' : Token} {initializer initializer' : Option Expr}
      (named : PairedToken P name name')
      (value : Option.Rel (PairedExpr P) initializer initializer') :
      PairedStmt P (.var name initializer) (.var name' initializer')
  | block {body body' : List Stmt} (same : List.Forall₂ (PairedStmt P) body body') :
      PairedStmt P (.block body) (.block body')
  | ite {condition condition' : Expr} {thenBranch thenBranch' : Stmt}
      {elseBranch elseBranch' : Option Stmt} (test : PairedExpr P condition condition')
      (yes : PairedStmt P thenBranch thenBranch')
      (no : Option.Rel (PairedStmt P) elseBranch elseBranch') :
      PairedStmt P (.ite condition thenBranch elseBranch) (.ite condition' thenBranch' elseBranch')
  | while {condition condition' : Expr} {body body' : Stmt}
      (test : PairedExpr P condition condition') (lap : PairedStmt P body body') :
      PairedStmt P (.while condition body) (.while condition' body')
  | break {keyword keyword' : Token} (place : PairedToken P keyword keyword') :
      PairedStmt P (.break keyword) (.break keyword')
  | function {d d' : FunctionDecl} (same : PairedDecl P d d') :
      PairedStmt P (.function d) (.function d')
  | return {keyword keyword' : Token} {value value' : Option Expr}
      (place : PairedToken P keyword keyword') (same : Option.Rel (PairedExpr P) value value') :
      PairedStmt P (.return keyword value) (.return keyword' value')
  | class {name name' : Token} {superclass superclass' : Option Expr}
      {methods methods' : List FunctionDecl} (named : PairedToken P name name')
      (parent : Option.Rel (PairedExpr P) superclass superclass')
      (same : List.Forall₂ (PairedDecl P) methods methods') :
      PairedStmt P (.class name superclass methods) (.class name' superclass' methods')

inductive PairedDecl (P : Pairing) : FunctionDecl → FunctionDecl → Prop
  | mk {name name' : Token} {params params' : List Token} {body body' : List Stmt}
      (named : PairedToken P name name')
      (parameters : List.Forall₂ (PairedToken P) params params')
      (same : List.Forall₂ (PairedStmt P) body body') :
      PairedDecl P (.mk name params body) (.mk name' params' body')

end

abbrev PairedBody (P : Pairing) : List Stmt → List Stmt → Prop := List.Forall₂ (PairedStmt P)

inductive PairedDiagnostic (P : Pairing) : Diagnostic → Diagnostic → Prop
  | lexical {line line' : Nat} (place : P.lines line line') (fault : LexicalFault) :
      PairedDiagnostic P (.lexical line fault) (.lexical line' fault)
  | grammatical {t t' : Token} (place : PairedToken P t t') (fault : SyntaxFault) :
      PairedDiagnostic P (.grammatical t fault) (.grammatical t' fault)
  | binding {t t' : Token} (place : PairedToken P t t') (fault : BindingFault) :
      PairedDiagnostic P (.binding t fault) (.binding t' fault)

theorem PairedToken.refl {P : Pairing} (lines : ∀ l, P.lines l l) (t : Token) : PairedToken P t t :=
  ⟨rfl, rfl, lines t.line⟩

theorem PairedDiagnostic.refl {P : Pairing} (lines : ∀ l, P.lines l l) :
    (d : Diagnostic) → PairedDiagnostic P d d
  | .lexical line fault => .lexical (lines line) fault
  | .grammatical place fault => .grammatical (.refl lines place) fault
  | .binding place fault => .binding (.refl lines place) fault

/-! ### Routines -/

section Routines

variable {P : Pairing} {d d' : FunctionDecl}

theorem PairedDecl.named (h : PairedDecl P d d') : PairedToken P d.name d'.name := by
  cases h with
  | mk named _ _ => exact named

theorem PairedDecl.parameters (h : PairedDecl P d d') :
    List.Forall₂ (PairedToken P) d.params d'.params := by
  cases h with
  | mk _ parameters _ => exact parameters

theorem PairedDecl.bodies (h : PairedDecl P d d') : PairedBody P d.body d'.body := by
  cases h with
  | mk _ _ same => exact same

theorem PairedDecl.arity (h : PairedDecl P d d') : d.arity = d'.arity := h.parameters.length_eq

end Routines

/-! ### Identities go together -/

section Identities

variable {P : Pairing}

mutual

theorem PairedExpr.ids : (e : Expr) → {e' : Expr} → PairedExpr P e e' →
    List.Forall₂ P.ids e.ids e'.ids
  | .literal _, _, .literal _ => .nil
  | .unary _ right, _, .unary _ operand => (PairedExpr.ids right operand :)
  | .binary left _ right, _, .binary first _ second =>
    List.rel_append (PairedExpr.ids left first) (PairedExpr.ids right second)
  | .logical left _ right, _, .logical first _ second =>
    List.rel_append (PairedExpr.ids left first) (PairedExpr.ids right second)
  | .group inner, _, .group same => (PairedExpr.ids inner same :)
  | .variable _ _, _, .variable node _ => .cons node .nil
  | .assign _ _ value, _, .assign node _ same =>
    List.rel_append (PairedExpr.ids value same) (.cons node .nil)
  | .call callee _ arguments, _, .call called _ given =>
    List.rel_append (PairedExpr.ids callee called) (PairedExpr.idsAll arguments given)
  | .get object _, _, .get owner _ => (PairedExpr.ids object owner :)
  | .set object _ value, _, .set owner _ same =>
    List.rel_append (PairedExpr.ids value same) (PairedExpr.ids object owner)
  | .this _ _, _, .this node _ => .cons node .nil
  | .super _ _ _, _, .super node _ _ => .cons node .nil

theorem PairedExpr.idsAll : (es : List Expr) → {es' : List Expr} →
    List.Forall₂ (PairedExpr P) es es' → List.Forall₂ P.ids (Expr.idsAll es) (Expr.idsAll es')
  | [], _, .nil => .nil
  | e :: es, _, .cons first others =>
    List.rel_append (PairedExpr.ids e first) (PairedExpr.idsAll es others)

end

theorem PairedExpr.idsOption {o o' : Option Expr} (h : Option.Rel (PairedExpr P) o o') :
    List.Forall₂ P.ids (Expr.idsOption o) (Expr.idsOption o') := by
  cases h with
  | none => exact .nil
  | some same => exact PairedExpr.ids _ same

mutual

theorem PairedStmt.ids : (s : Stmt) → {s' : Stmt} → PairedStmt P s s' →
    List.Forall₂ P.ids s.ids s'.ids
  | .expression e, _, .expression same => PairedExpr.ids e same
  | .print e, _, .print same => PairedExpr.ids e same
  | .var _ _, _, .var _ value => PairedExpr.idsOption value
  | .block body, _, .block same => PairedStmt.idsAll body same
  | .ite condition thenBranch none, _, .ite test yes .none =>
    List.rel_append (PairedExpr.ids condition test) (PairedStmt.ids thenBranch yes)
  | .ite condition thenBranch (some elseBranch), _, .ite test yes (.some no) =>
    List.rel_append (PairedExpr.ids condition test)
      (List.rel_append (PairedStmt.ids thenBranch yes) (PairedStmt.ids elseBranch no))
  | .while condition body, _, .while test lap =>
    List.rel_append (PairedExpr.ids condition test) (PairedStmt.ids body lap)
  | .break _, _, .break _ => .nil
  | .function d, _, .function same => PairedDecl.ids d same
  | .return _ _, _, .return _ same => PairedExpr.idsOption same
  | .class _ _ methods, _, .class _ parent same =>
    List.rel_append (PairedExpr.idsOption parent) (PairedDecl.idsAll methods same)

theorem PairedStmt.idsAll : (ss : List Stmt) → {ss' : List Stmt} → PairedBody P ss ss' →
    List.Forall₂ P.ids (Stmt.idsAll ss) (Stmt.idsAll ss')
  | [], _, .nil => .nil
  | s :: ss, _, .cons first others =>
    List.rel_append (PairedStmt.ids s first) (PairedStmt.idsAll ss others)

theorem PairedDecl.ids : (d : FunctionDecl) → {d' : FunctionDecl} → PairedDecl P d d' →
    List.Forall₂ P.ids d.ids d'.ids
  | .mk _ _ body, _, .mk _ _ same => PairedStmt.idsAll body same

theorem PairedDecl.idsAll : (ds : List FunctionDecl) → {ds' : List FunctionDecl} →
    List.Forall₂ (PairedDecl P) ds ds' →
    List.Forall₂ P.ids (FunctionDecl.idsAll ds) (FunctionDecl.idsAll ds')
  | [], _, .nil => .nil
  | d :: ds, _, .cons first others =>
    List.rel_append (PairedDecl.ids d first) (PairedDecl.idsAll ds others)

end

end Identities

/-! ### Other identities in the same order -/

theorem rel_split {α β : Type} {R : α → β → Prop} {a b : List α} {a' b' : List β}
    (length : a.length = a'.length) (h : List.Forall₂ R (a ++ b) (a' ++ b')) :
    List.Forall₂ R a a' ∧ List.Forall₂ R b b' := by
  have left := List.forall₂_take a.length h
  have right := List.forall₂_drop a.length h
  rw [List.take_left, length, List.take_left] at left
  rw [List.drop_left, length, List.drop_left] at right
  exact ⟨left, right⟩

section Along

variable {P Q : Pairing}

mutual

theorem PairedExpr.along (lines : P.Lined Q) : (e : Expr) → {e' : Expr} → PairedExpr P e e' →
    List.Forall₂ Q.ids e.ids e'.ids → PairedExpr Q e e'
  | .literal _, _, .literal l, _ => .literal l
  | .unary _ right, _, .unary symbol operand, ids =>
    .unary (symbol.along lines) (PairedExpr.along lines right operand ids)
  | .binary left _ right, _, .binary first symbol second, ids =>
    have split := rel_split (PairedExpr.ids left first).length_eq ids
    .binary (PairedExpr.along lines left first split.1) (symbol.along lines)
      (PairedExpr.along lines right second split.2)
  | .logical left _ right, _, .logical first symbol second, ids =>
    have split := rel_split (PairedExpr.ids left first).length_eq ids
    .logical (PairedExpr.along lines left first split.1) (symbol.along lines)
      (PairedExpr.along lines right second split.2)
  | .group inner, _, .group same, ids => .group (PairedExpr.along lines inner same ids)
  | .variable _ _, _, .variable _ named, .cons node _ => .variable node (named.along lines)
  | .assign _ _ value, _, .assign _ named same, ids =>
    have split := rel_split (PairedExpr.ids value same).length_eq ids
    .assign (List.forall₂_cons.1 split.2).1 (named.along lines)
      (PairedExpr.along lines value same split.1)
  | .call callee _ arguments, _, .call called place given, ids =>
    have split := rel_split (PairedExpr.ids callee called).length_eq ids
    .call (PairedExpr.along lines callee called split.1) (place.along lines)
      (PairedExpr.alongAll lines arguments given split.2)
  | .get object _, _, .get owner named, ids =>
    .get (PairedExpr.along lines object owner ids) (named.along lines)
  | .set object _ value, _, .set owner named same, ids =>
    have split := rel_split (PairedExpr.ids value same).length_eq ids
    .set (PairedExpr.along lines object owner split.2) (named.along lines)
      (PairedExpr.along lines value same split.1)
  | .this _ _, _, .this _ place, .cons node _ => .this node (place.along lines)
  | .super _ _ _, _, .super _ place named, .cons node _ =>
    .super node (place.along lines) (named.along lines)

theorem PairedExpr.alongAll (lines : P.Lined Q) : (es : List Expr) → {es' : List Expr} →
    List.Forall₂ (PairedExpr P) es es' → List.Forall₂ Q.ids (Expr.idsAll es) (Expr.idsAll es') →
    List.Forall₂ (PairedExpr Q) es es'
  | [], _, .nil, _ => .nil
  | e :: es, _, .cons first others, ids =>
    have split := rel_split (PairedExpr.ids e first).length_eq ids
    .cons (PairedExpr.along lines e first split.1) (PairedExpr.alongAll lines es others split.2)

end

theorem PairedExpr.alongOption (lines : P.Lined Q) {o o' : Option Expr}
    (h : Option.Rel (PairedExpr P) o o')
    (ids : List.Forall₂ Q.ids (Expr.idsOption o) (Expr.idsOption o')) :
    Option.Rel (PairedExpr Q) o o' := by
  cases h with
  | none => exact .none
  | some same => exact .some (PairedExpr.along lines _ same ids)

theorem tokens_along (lines : P.Lined Q) {ts ts' : List Token}
    (h : List.Forall₂ (PairedToken P) ts ts') : List.Forall₂ (PairedToken Q) ts ts' :=
  h.imp fun _ _ same => same.along lines

mutual

theorem PairedStmt.along (lines : P.Lined Q) : (s : Stmt) → {s' : Stmt} → PairedStmt P s s' →
    List.Forall₂ Q.ids s.ids s'.ids → PairedStmt Q s s'
  | .expression e, _, .expression same, ids => .expression (PairedExpr.along lines e same ids)
  | .print e, _, .print same, ids => .print (PairedExpr.along lines e same ids)
  | .var _ _, _, .var named value, ids =>
    .var (named.along lines) (PairedExpr.alongOption lines value ids)
  | .block body, _, .block same, ids => .block (PairedStmt.alongAll lines body same ids)
  | .ite condition thenBranch none, _, .ite test yes .none, ids =>
    have split := rel_split (PairedExpr.ids condition test).length_eq ids
    .ite (PairedExpr.along lines condition test split.1)
      (PairedStmt.along lines thenBranch yes split.2) .none
  | .ite condition thenBranch (some elseBranch), _, .ite test yes (.some no), ids =>
    have split := rel_split (PairedExpr.ids condition test).length_eq ids
    have branches := rel_split (PairedStmt.ids thenBranch yes).length_eq split.2
    .ite (PairedExpr.along lines condition test split.1)
      (PairedStmt.along lines thenBranch yes branches.1)
      (.some (PairedStmt.along lines elseBranch no branches.2))
  | .while condition body, _, .while test lap, ids =>
    have split := rel_split (PairedExpr.ids condition test).length_eq ids
    .while (PairedExpr.along lines condition test split.1) (PairedStmt.along lines body lap split.2)
  | .break _, _, .break place, _ => .break (place.along lines)
  | .function d, _, .function same, ids => .function (PairedDecl.along lines d same ids)
  | .return _ _, _, .return place same, ids =>
    .return (place.along lines) (PairedExpr.alongOption lines same ids)
  | .class _ _ methods, _, .class named parent same, ids =>
    have split := rel_split (PairedExpr.idsOption parent).length_eq ids
    .class (named.along lines) (PairedExpr.alongOption lines parent split.1)
      (PairedDecl.alongAll lines methods same split.2)

theorem PairedStmt.alongAll (lines : P.Lined Q) : (ss : List Stmt) → {ss' : List Stmt} →
    PairedBody P ss ss' → List.Forall₂ Q.ids (Stmt.idsAll ss) (Stmt.idsAll ss') →
    PairedBody Q ss ss'
  | [], _, .nil, _ => .nil
  | s :: ss, _, .cons first others, ids =>
    have split := rel_split (PairedStmt.ids s first).length_eq ids
    .cons (PairedStmt.along lines s first split.1) (PairedStmt.alongAll lines ss others split.2)

theorem PairedDecl.along (lines : P.Lined Q) : (d : FunctionDecl) → {d' : FunctionDecl} →
    PairedDecl P d d' → List.Forall₂ Q.ids d.ids d'.ids → PairedDecl Q d d'
  | .mk _ _ body, _, .mk named parameters same, ids =>
    .mk (named.along lines) (tokens_along lines parameters)
      (PairedStmt.alongAll lines body same ids)

theorem PairedDecl.alongAll (lines : P.Lined Q) : (ds : List FunctionDecl) →
    {ds' : List FunctionDecl} → List.Forall₂ (PairedDecl P) ds ds' →
    List.Forall₂ Q.ids (FunctionDecl.idsAll ds) (FunctionDecl.idsAll ds') →
    List.Forall₂ (PairedDecl Q) ds ds'
  | [], _, .nil, _ => .nil
  | d :: ds, _, .cons first others, ids =>
    have split := rel_split (PairedDecl.ids d first).length_eq ids
    .cons (PairedDecl.along lines d first split.1) (PairedDecl.alongAll lines ds others split.2)

end

end Along

theorem PairedDecl.mono {P Q : Pairing} {d d' : FunctionDecl} (h : PairedDecl P d d')
    (le : P.Le Q) : PairedDecl Q d d' :=
  PairedDecl.along le.lines d h ((PairedDecl.ids d h).imp le.ids)

theorem PairedBody.mono {P Q : Pairing} {ss ss' : List Stmt} (h : PairedBody P ss ss')
    (le : P.Le Q) : PairedBody Q ss ss' :=
  PairedStmt.alongAll le.lines ss h ((PairedStmt.idsAll ss h).imp le.ids)

/-! ### Trees up to identities -/

section Unnumbered

variable {lines : Nat → Nat → Prop}

mutual

theorem PairedExpr.unnumber : (e : Expr) → {u : Expr} → PairedExpr (.ofLines lines) e u →
    PairedExpr (.ofLines lines) e u.unnumbered
  | .literal _, _, .literal l => .literal l
  | .unary _ right, _, .unary symbol operand => .unary symbol (PairedExpr.unnumber right operand)
  | .binary left _ right, _, .binary first symbol second =>
    .binary (PairedExpr.unnumber left first) symbol (PairedExpr.unnumber right second)
  | .logical left _ right, _, .logical first symbol second =>
    .logical (PairedExpr.unnumber left first) symbol (PairedExpr.unnumber right second)
  | .group inner, _, .group same => .group (PairedExpr.unnumber inner same)
  | .variable _ _, _, .variable _ named => .variable trivial named
  | .assign _ _ value, _, .assign _ named same =>
    .assign trivial named (PairedExpr.unnumber value same)
  | .call callee _ arguments, _, .call called place given =>
    .call (PairedExpr.unnumber callee called) place (PairedExpr.unnumberAll arguments given)
  | .get object _, _, .get owner named => .get (PairedExpr.unnumber object owner) named
  | .set object _ value, _, .set owner named same =>
    .set (PairedExpr.unnumber object owner) named (PairedExpr.unnumber value same)
  | .this _ _, _, .this _ place => .this trivial place
  | .super _ _ _, _, .super _ place named => .super trivial place named

theorem PairedExpr.unnumberAll : (es : List Expr) → {us : List Expr} →
    List.Forall₂ (PairedExpr (.ofLines lines)) es us →
    List.Forall₂ (PairedExpr (.ofLines lines)) es (Expr.unnumberedAll us)
  | [], _, .nil => .nil
  | e :: es, _, .cons first others =>
    .cons (PairedExpr.unnumber e first) (PairedExpr.unnumberAll es others)

end

theorem PairedExpr.unnumberOption : (o : Option Expr) → {u : Option Expr} →
    Option.Rel (PairedExpr (.ofLines lines)) o u →
    Option.Rel (PairedExpr (.ofLines lines)) o (u.map Expr.unnumbered)
  | none, _, .none => .none
  | some e, _, .some same => .some (PairedExpr.unnumber e same)

mutual

theorem PairedStmt.unnumber : (s : Stmt) → {u : Stmt} → PairedStmt (.ofLines lines) s u →
    PairedStmt (.ofLines lines) s u.unnumbered
  | .expression e, _, .expression same => .expression (PairedExpr.unnumber e same)
  | .print e, _, .print same => .print (PairedExpr.unnumber e same)
  | .var _ initializer, _, .var named value =>
    .var named (PairedExpr.unnumberOption initializer value)
  | .block body, _, .block same => .block (PairedStmt.unnumberAll body same)
  | .ite condition thenBranch none, _, .ite test yes .none =>
    .ite (PairedExpr.unnumber condition test) (PairedStmt.unnumber thenBranch yes) .none
  | .ite condition thenBranch (some elseBranch), _, .ite test yes (.some no) =>
    .ite (PairedExpr.unnumber condition test) (PairedStmt.unnumber thenBranch yes)
      (.some (PairedStmt.unnumber elseBranch no))
  | .while condition body, _, .while test lap =>
    .while (PairedExpr.unnumber condition test) (PairedStmt.unnumber body lap)
  | .break _, _, .break place => .break place
  | .function d, _, .function same => .function (PairedDecl.unnumber d same)
  | .return _ value, _, .return place same =>
    .return place (PairedExpr.unnumberOption value same)
  | .class _ superclass methods, _, .class named parent same =>
    .class named (PairedExpr.unnumberOption superclass parent)
      (PairedDecl.unnumberAll methods same)

theorem PairedStmt.unnumberAll : (ss : List Stmt) → {us : List Stmt} →
    PairedBody (.ofLines lines) ss us → PairedBody (.ofLines lines) ss (Stmt.unnumberedAll us)
  | [], _, .nil => .nil
  | s :: ss, _, .cons first others =>
    .cons (PairedStmt.unnumber s first) (PairedStmt.unnumberAll ss others)

theorem PairedDecl.unnumber : (d : FunctionDecl) → {u : FunctionDecl} →
    PairedDecl (.ofLines lines) d u → PairedDecl (.ofLines lines) d u.unnumbered
  | .mk _ _ body, _, .mk named parameters same =>
    .mk named parameters (PairedStmt.unnumberAll body same)

theorem PairedDecl.unnumberAll : (ds : List FunctionDecl) → {us : List FunctionDecl} →
    List.Forall₂ (PairedDecl (.ofLines lines)) ds us →
    List.Forall₂ (PairedDecl (.ofLines lines)) ds (FunctionDecl.unnumberedAll us)
  | [], _, .nil => .nil
  | d :: ds, _, .cons first others =>
    .cons (PairedDecl.unnumber d first) (PairedDecl.unnumberAll ds others)

end

mutual

theorem PairedExpr.number : (u : Expr) → {e : Expr} → PairedExpr (.ofLines lines) e u.unnumbered →
    PairedExpr (.ofLines lines) e u
  | .literal _, _, .literal l => .literal l
  | .unary _ right, _, .unary symbol operand => .unary symbol (PairedExpr.number right operand)
  | .binary left _ right, _, .binary first symbol second =>
    .binary (PairedExpr.number left first) symbol (PairedExpr.number right second)
  | .logical left _ right, _, .logical first symbol second =>
    .logical (PairedExpr.number left first) symbol (PairedExpr.number right second)
  | .group inner, _, .group same => .group (PairedExpr.number inner same)
  | .variable _ _, _, .variable _ named => .variable trivial named
  | .assign _ _ value, _, .assign _ named same =>
    .assign trivial named (PairedExpr.number value same)
  | .call callee _ arguments, _, .call called place given =>
    .call (PairedExpr.number callee called) place (PairedExpr.numberAll arguments given)
  | .get object _, _, .get owner named => .get (PairedExpr.number object owner) named
  | .set object _ value, _, .set owner named same =>
    .set (PairedExpr.number object owner) named (PairedExpr.number value same)
  | .this _ _, _, .this _ place => .this trivial place
  | .super _ _ _, _, .super _ place named => .super trivial place named

theorem PairedExpr.numberAll : (us : List Expr) → {es : List Expr} →
    List.Forall₂ (PairedExpr (.ofLines lines)) es (Expr.unnumberedAll us) →
    List.Forall₂ (PairedExpr (.ofLines lines)) es us
  | [], _, .nil => .nil
  | u :: us, _, .cons first others =>
    .cons (PairedExpr.number u first) (PairedExpr.numberAll us others)

end

theorem PairedExpr.numberOption : (u : Option Expr) → {o : Option Expr} →
    Option.Rel (PairedExpr (.ofLines lines)) o (u.map Expr.unnumbered) →
    Option.Rel (PairedExpr (.ofLines lines)) o u
  | none, _, .none => .none
  | some u, _, .some same => .some (PairedExpr.number u same)

mutual

theorem PairedStmt.number : (u : Stmt) → {s : Stmt} → PairedStmt (.ofLines lines) s u.unnumbered →
    PairedStmt (.ofLines lines) s u
  | .expression e, _, .expression same => .expression (PairedExpr.number e same)
  | .print e, _, .print same => .print (PairedExpr.number e same)
  | .var _ initializer, _, .var named value =>
    .var named (PairedExpr.numberOption initializer value)
  | .block body, _, .block same => .block (PairedStmt.numberAll body same)
  | .ite condition thenBranch none, _, .ite test yes .none =>
    .ite (PairedExpr.number condition test) (PairedStmt.number thenBranch yes) .none
  | .ite condition thenBranch (some elseBranch), _, .ite test yes (.some no) =>
    .ite (PairedExpr.number condition test) (PairedStmt.number thenBranch yes)
      (.some (PairedStmt.number elseBranch no))
  | .while condition body, _, .while test lap =>
    .while (PairedExpr.number condition test) (PairedStmt.number body lap)
  | .break _, _, .break place => .break place
  | .function d, _, .function same => .function (PairedDecl.number d same)
  | .return _ value, _, .return place same =>
    .return place (PairedExpr.numberOption value same)
  | .class _ superclass methods, _, .class named parent same =>
    .class named (PairedExpr.numberOption superclass parent)
      (PairedDecl.numberAll methods same)

theorem PairedStmt.numberAll : (us : List Stmt) → {ss : List Stmt} →
    PairedBody (.ofLines lines) ss (Stmt.unnumberedAll us) → PairedBody (.ofLines lines) ss us
  | [], _, .nil => .nil
  | u :: us, _, .cons first others =>
    .cons (PairedStmt.number u first) (PairedStmt.numberAll us others)

theorem PairedDecl.number : (u : FunctionDecl) → {d : FunctionDecl} →
    PairedDecl (.ofLines lines) d u.unnumbered → PairedDecl (.ofLines lines) d u
  | .mk _ _ body, _, .mk named parameters same =>
    .mk named parameters (PairedStmt.numberAll body same)

theorem PairedDecl.numberAll : (us : List FunctionDecl) → {ds : List FunctionDecl} →
    List.Forall₂ (PairedDecl (.ofLines lines)) ds (FunctionDecl.unnumberedAll us) →
    List.Forall₂ (PairedDecl (.ofLines lines)) ds us
  | [], _, .nil => .nil
  | u :: us, _, .cons first others =>
    .cons (PairedDecl.number u first) (PairedDecl.numberAll us others)

end

/-- Identities may be changed on one side. -/
theorem PairedBody.renumber {ss ts us : List Stmt} (h : PairedBody (.ofLines lines) ss ts)
    (same : Stmt.unnumberedAll ts = Stmt.unnumberedAll us) : PairedBody (.ofLines lines) ss us :=
  PairedStmt.numberAll us (same ▸ PairedStmt.unnumberAll ss h)

end Unnumbered

end Lox
