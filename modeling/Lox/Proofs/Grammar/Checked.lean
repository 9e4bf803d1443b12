import Lox.Proofs.Binding.Occurrence
import Lox.Proofs.Grammar.Atoms

/-!
# What runs take for granted

Every operator of a program is one of the grammar (`parse_checked`), and every `super` in it is one
of those that the static rules speak of (`Stmt.checkedAll_of_occurrences`).
-/

namespace Lox

/-- Some of the methods of superclasses: the node, the keyword and the name of each. -/
abbrev SuperSet := NodeId → Token → Token → Prop

abbrev AnySuper : SuperSet := fun _ _ _ => True

section Checked

variable (S : SuperSet)

mutual

/-- Its operators are those of the grammar, and its methods of superclasses are among `S`. -/
def Expr.Checked : Expr → Prop
  | .literal _ => True
  | .unary operator right => operator.kind ∈ Grammar.unaryOperators ∧ right.Checked
  | .binary left operator right =>
    operator.kind ∈ Grammar.binaryOperators ∧ left.Checked ∧ right.Checked
  | .logical left _ right => left.Checked ∧ right.Checked
  | .group inner => inner.Checked
  | .variable _ _ => True
  | .assign _ _ value => value.Checked
  | .call callee _ arguments => callee.Checked ∧ Expr.CheckedAll arguments
  | .get object _ => object.Checked
  | .set object _ value => object.Checked ∧ value.Checked
  | .this _ _ => True
  | .super id keyword method => S id keyword method

def Expr.CheckedAll : List Expr → Prop
  | [] => True
  | e :: es => e.Checked ∧ Expr.CheckedAll es

end

def Expr.CheckedOption : Option Expr → Prop
  | none => True
  | some e => e.Checked S

mutual

def Stmt.Checked : Stmt → Prop
  | .expression e => e.Checked S
  | .print e => e.Checked S
  | .var _ initializer => Expr.CheckedOption S initializer
  | .block body => Stmt.CheckedAll body
  | .ite condition thenBranch none => condition.Checked S ∧ thenBranch.Checked
  | .ite condition thenBranch (some elseBranch) =>
    condition.Checked S ∧ thenBranch.Checked ∧ elseBranch.Checked
  | .while condition body => condition.Checked S ∧ body.Checked
  | .break _ => True
  | .function d => d.Checked
  | .return _ value => Expr.CheckedOption S value
  | .class _ superclass methods => Expr.CheckedOption S superclass ∧ FunctionDecl.CheckedAll methods

def Stmt.CheckedAll : List Stmt → Prop
  | [] => True
  | s :: ss => s.Checked ∧ Stmt.CheckedAll ss

def FunctionDecl.Checked : FunctionDecl → Prop
  | .mk _ _ body => Stmt.CheckedAll body

def FunctionDecl.CheckedAll : List FunctionDecl → Prop
  | [] => True
  | d :: ds => d.Checked ∧ FunctionDecl.CheckedAll ds

end

end Checked

/-! ### Parts -/

section Parts

variable {S : SuperSet}

theorem Expr.checkedAll_iff {es : List Expr} : Expr.CheckedAll S es ↔ ∀ e ∈ es, e.Checked S := by
  induction es with
  | nil => exact ⟨fun _ _ mem => absurd mem List.not_mem_nil, fun _ => trivial⟩
  | cons e es ih => rw [Expr.CheckedAll, ih, List.forall_mem_cons]

theorem Stmt.checkedAll_iff {ss : List Stmt} : Stmt.CheckedAll S ss ↔ ∀ s ∈ ss, s.Checked S := by
  induction ss with
  | nil => exact ⟨fun _ _ mem => absurd mem List.not_mem_nil, fun _ => trivial⟩
  | cons s ss ih => rw [Stmt.CheckedAll, ih, List.forall_mem_cons]

theorem FunctionDecl.checkedAll_iff {ds : List FunctionDecl} :
    FunctionDecl.CheckedAll S ds ↔ ∀ d ∈ ds, d.Checked S := by
  induction ds with
  | nil => exact ⟨fun _ _ mem => absurd mem List.not_mem_nil, fun _ => trivial⟩
  | cons d ds ih => rw [FunctionDecl.CheckedAll, ih, List.forall_mem_cons]

theorem FunctionDecl.Checked.body {d : FunctionDecl} (h : d.Checked S) :
    Stmt.CheckedAll S d.body := by
  cases d with
  | mk name params body => exact h

theorem Stmt.Checked.functions {s : Stmt} (h : s.Checked S) : ∀ d ∈ s.functions, d.Checked S := by
  cases s with
  | function d => exact List.forall_mem_singleton.2 h
  | «class» name superclass methods => exact FunctionDecl.checkedAll_iff.1 h.2
  | expression | print | var | block | ite | «while» | «break» | «return» =>
    exact fun d declared => absurd declared List.not_mem_nil

theorem Stmt.Checked.children {s : Stmt} (h : s.Checked S) : ∀ t ∈ s.children, t.Checked S := by
  cases s with
  | block body => exact Stmt.checkedAll_iff.1 h
  | ite condition thenBranch elseBranch =>
    cases elseBranch with
    | none => exact List.forall_mem_singleton.2 h.2
    | some elseBranch =>
      exact List.forall_mem_cons.2 ⟨h.2.1, List.forall_mem_singleton.2 h.2.2⟩
  | «while» condition body => exact List.forall_mem_singleton.2 h.2
  | function d => exact Stmt.checkedAll_iff.1 h.body
  | «class» name superclass methods =>
    intro t inside
    obtain ⟨d, declared, mem⟩ := List.mem_flatMap.1 inside
    exact Stmt.checkedAll_iff.1 (FunctionDecl.checkedAll_iff.1 h.2 d declared).body t mem
  | expression | print | var | «break» | «return» =>
    exact fun t inside => absurd inside List.not_mem_nil

theorem PartOf.checked {program : List Stmt} {s : Stmt} (h : PartOf program s)
    (whole : Stmt.CheckedAll S program) : s.Checked S := by
  obtain ⟨top, known, within⟩ := h
  exact within.induct (fun _ => Stmt.Checked.children) (Stmt.checkedAll_iff.1 whole top known)

end Parts

/-! ### Methods of superclasses -/

section Occurrences

variable {S : SuperSet}

/-- Every method of a superclass that occurs is one of those. -/
def SuperSet.Covers (S : SuperSet) (found : List (Around × Occurrence)) : Prop :=
  ∀ a id keyword method, (a, .super id keyword method) ∈ found → S id keyword method

theorem covers_append {found more : List (Around × Occurrence)} :
    S.Covers (found ++ more) ↔ S.Covers found ∧ S.Covers more := by
  refine ⟨fun h => ⟨?_, ?_⟩, fun h a id keyword method mem => ?_⟩
  · exact fun a id keyword method mem => h a id keyword method (List.mem_append_left _ mem)
  · exact fun a id keyword method mem => h a id keyword method (List.mem_append_right _ mem)
  · exact (List.mem_append.1 mem).elim (h.1 a id keyword method) (h.2 a id keyword method)

theorem SuperSet.Covers.tail {p : Around × Occurrence} {found : List (Around × Occurrence)}
    (h : S.Covers (p :: found)) : S.Covers found :=
  fun a id keyword method mem => h a id keyword method (List.mem_cons_of_mem _ mem)

variable {T : SuperSet} (a : Around)

mutual

theorem Expr.checked_of_occurrences : (e : Expr) → e.Checked T → S.Covers (e.occurrences a) →
    e.Checked S
  | .literal _, _, _ => trivial
  | .unary _ right, h, known => ⟨h.1, right.checked_of_occurrences h.2 known⟩
  | .binary left _ right, h, known => ⟨h.1,
    left.checked_of_occurrences h.2.1 (covers_append.1 known).1,
    right.checked_of_occurrences h.2.2 (covers_append.1 known).2⟩
  | .logical left _ right, h, known => ⟨left.checked_of_occurrences h.1 (covers_append.1 known).1,
    right.checked_of_occurrences h.2 (covers_append.1 known).2⟩
  | .group inner, h, known => inner.checked_of_occurrences h known
  | .variable _ _, _, _ => trivial
  | .assign _ _ value, h, known => value.checked_of_occurrences h known
  | .call callee _ arguments, h, known =>
    ⟨callee.checked_of_occurrences h.1 (covers_append.1 known).1,
      Expr.checkedAll_of_occurrences arguments h.2 (covers_append.1 known).2⟩
  | .get object _, h, known => object.checked_of_occurrences h known
  | .set object _ value, h, known =>
    ⟨object.checked_of_occurrences h.1 (covers_append.1 known).1,
      value.checked_of_occurrences h.2 (covers_append.1 known).2⟩
  | .this _ _, _, _ => trivial
  | .super id keyword method, _, known => known a id keyword method List.mem_cons_self

theorem Expr.checkedAll_of_occurrences : (es : List Expr) → Expr.CheckedAll T es →
    S.Covers (Expr.occurrencesAll a es) → Expr.CheckedAll S es
  | [], _, _ => trivial
  | e :: es, h, known => ⟨e.checked_of_occurrences h.1 (covers_append.1 known).1,
    Expr.checkedAll_of_occurrences es h.2 (covers_append.1 known).2⟩

end

theorem Expr.checkedOption_of_occurrences {o : Option Expr} (h : Expr.CheckedOption T o)
    (known : S.Covers (Expr.occurrencesOption a o)) : Expr.CheckedOption S o := by
  cases o with
  | none => exact trivial
  | some e => exact e.checked_of_occurrences a h known

mutual

theorem Stmt.checked_of_occurrences (a : Around) (isLocal : Bool) : (s : Stmt) → s.Checked T →
    S.Covers (s.occurrences a isLocal) → s.Checked S
  | .expression e, h, known => e.checked_of_occurrences a h known
  | .print e, h, known => e.checked_of_occurrences a h known
  | .var _ none, _, _ => trivial
  | .var _ (some e), h, known => e.checked_of_occurrences a h (covers_append.1 known).2
  | .block body, h, known => Stmt.checkedAll_of_occurrences a true body h known.tail
  | .ite condition thenBranch none, h, known =>
    ⟨condition.checked_of_occurrences a h.1 (covers_append.1 known).1,
      thenBranch.checked_of_occurrences a isLocal h.2 (covers_append.1 known).2⟩
  | .ite condition thenBranch (some elseBranch), h, known =>
    have branches := covers_append.1 (covers_append.1 known).2
    ⟨condition.checked_of_occurrences a h.1 (covers_append.1 known).1,
      thenBranch.checked_of_occurrences a isLocal h.2.1 branches.1,
      elseBranch.checked_of_occurrences a isLocal h.2.2 branches.2⟩
  | .while condition body, h, known =>
    ⟨condition.checked_of_occurrences a h.1 (covers_append.1 known).1,
      body.checked_of_occurrences a isLocal h.2 (covers_append.1 known).2⟩
  | .break _, _, _ => trivial
  | .function d, h, known => d.checked_of_occurrences _ h known
  | .return _ _, h, known => Expr.checkedOption_of_occurrences a h known.tail
  | .class _ _ methods, h, known =>
    have parts := covers_append.1 known.tail
    ⟨Expr.checkedOption_of_occurrences a h.1 parts.1,
      FunctionDecl.checkedAll_of_occurrences _ methods h.2 parts.2⟩

theorem Stmt.checkedAll_of_occurrences (a : Around) (isLocal : Bool) : (ss : List Stmt) →
    Stmt.CheckedAll T ss → S.Covers (Stmt.occurrencesAll a isLocal ss) → Stmt.CheckedAll S ss
  | [], _, _ => trivial
  | s :: ss, h, known => ⟨s.checked_of_occurrences a isLocal h.1 (covers_append.1 known).1,
    Stmt.checkedAll_of_occurrences a isLocal ss h.2 (covers_append.1 known).2⟩

theorem FunctionDecl.checked_of_occurrences (a : Around) : (d : FunctionDecl) → d.Checked T →
    S.Covers (d.occurrences a) → d.Checked S
  | .mk _ _ body, h, known => Stmt.checkedAll_of_occurrences a true body h known.tail

theorem FunctionDecl.checkedAll_of_occurrences (family : ClassDecl) : (ds : List FunctionDecl) →
    FunctionDecl.CheckedAll T ds → S.Covers (FunctionDecl.occurrencesAll family ds) →
    FunctionDecl.CheckedAll S ds
  | [], _, _ => trivial
  | d :: ds, h, known => ⟨d.checked_of_occurrences _ h.1 (covers_append.1 known).1,
    FunctionDecl.checkedAll_of_occurrences family ds h.2 (covers_append.1 known).2⟩

end

end Occurrences

/-! ### Operators -/

section Operators

variable {Q : Token → Prop}

mutual

theorem Expr.checked_of_atoms : (e : Expr) → (∀ a ∈ e.atoms, a.Sound Q) → e.Checked AnySuper
  | .literal _, _ => trivial
  | .unary _ right, sound =>
    have parts := List.forall_mem_cons.1 sound
    ⟨parts.1.2, right.checked_of_atoms parts.2⟩
  | .binary left _ right, sound =>
    have parts := List.forall_mem_cons.1 sound
    have operands := List.forall_mem_append.1 parts.2
    ⟨parts.1.2, left.checked_of_atoms operands.1, right.checked_of_atoms operands.2⟩
  | .logical left _ right, sound =>
    have operands := List.forall_mem_append.1 (List.forall_mem_cons.1 sound).2
    ⟨left.checked_of_atoms operands.1, right.checked_of_atoms operands.2⟩
  | .group inner, sound => inner.checked_of_atoms sound
  | .variable _ _, _ => trivial
  | .assign _ _ value, sound => value.checked_of_atoms (List.forall_mem_cons.1 sound).2
  | .call callee _ arguments, sound =>
    have parts := List.forall_mem_append.1 (List.forall_mem_cons.1 sound).2
    ⟨callee.checked_of_atoms parts.1, Expr.checkedAll_of_atoms arguments parts.2⟩
  | .get object _, sound => object.checked_of_atoms (List.forall_mem_cons.1 sound).2
  | .set object _ value, sound =>
    have parts := List.forall_mem_append.1 (List.forall_mem_cons.1 sound).2
    ⟨object.checked_of_atoms parts.1, value.checked_of_atoms parts.2⟩
  | .this _ _, _ => trivial
  | .super _ _ _, _ => trivial

theorem Expr.checkedAll_of_atoms : (es : List Expr) → (∀ a ∈ Expr.atomsAll es, a.Sound Q) →
    Expr.CheckedAll AnySuper es
  | [], _ => trivial
  | e :: es, sound =>
    have parts := List.forall_mem_append.1 sound
    ⟨e.checked_of_atoms parts.1, Expr.checkedAll_of_atoms es parts.2⟩

end

theorem Expr.checkedOption_of_atoms : {o : Option Expr} →
    (∀ a ∈ Expr.atomsOption o, a.Sound Q) → Expr.CheckedOption AnySuper o
  | none, _ => trivial
  | some e, sound => e.checked_of_atoms sound

mutual

theorem Stmt.checked_of_atoms : (s : Stmt) → (∀ a ∈ s.atoms, a.Sound Q) → s.Checked AnySuper
  | .expression e, sound => e.checked_of_atoms sound
  | .print e, sound => e.checked_of_atoms sound
  | .var _ _, sound => Expr.checkedOption_of_atoms (List.forall_mem_cons.1 sound).2
  | .block body, sound => Stmt.checkedAll_of_atoms body sound
  | .ite condition thenBranch none, sound =>
    have parts := List.forall_mem_append.1 sound
    ⟨condition.checked_of_atoms parts.1, thenBranch.checked_of_atoms parts.2⟩
  | .ite condition thenBranch (some elseBranch), sound =>
    have parts := List.forall_mem_append.1 sound
    have branches := List.forall_mem_append.1 parts.2
    ⟨condition.checked_of_atoms parts.1, thenBranch.checked_of_atoms branches.1,
      elseBranch.checked_of_atoms branches.2⟩
  | .while condition body, sound =>
    have parts := List.forall_mem_append.1 sound
    ⟨condition.checked_of_atoms parts.1, body.checked_of_atoms parts.2⟩
  | .break _, _ => trivial
  | .function d, sound => d.checked_of_atoms sound
  | .return _ _, sound => Expr.checkedOption_of_atoms (List.forall_mem_cons.1 sound).2
  | .class _ _ methods, sound =>
    have parts := List.forall_mem_append.1 (List.forall_mem_cons.1 sound).2
    ⟨Expr.checkedOption_of_atoms parts.1, FunctionDecl.checkedAll_of_atoms methods parts.2⟩

theorem Stmt.checkedAll_of_atoms : (ss : List Stmt) → (∀ a ∈ Stmt.atomsAll ss, a.Sound Q) →
    Stmt.CheckedAll AnySuper ss
  | [], _ => trivial
  | s :: ss, sound =>
    have parts := List.forall_mem_append.1 sound
    ⟨s.checked_of_atoms parts.1, Stmt.checkedAll_of_atoms ss parts.2⟩

theorem FunctionDecl.checked_of_atoms : (d : FunctionDecl) → (∀ a ∈ d.atoms, a.Sound Q) →
    d.Checked AnySuper
  | .mk _ _ body, sound => Stmt.checkedAll_of_atoms body
    (List.forall_mem_append.1 (List.forall_mem_cons.1 sound).2).2

theorem FunctionDecl.checkedAll_of_atoms : (ds : List FunctionDecl) →
    (∀ a ∈ FunctionDecl.atomsAll ds, a.Sound Q) → FunctionDecl.CheckedAll AnySuper ds
  | [], _ => trivial
  | d :: ds, sound =>
    have parts := List.forall_mem_append.1 sound
    ⟨d.checked_of_atoms parts.1, FunctionDecl.checkedAll_of_atoms ds parts.2⟩

end

end Operators

/-- The parser yields no operators but those of the grammar. -/
theorem Grammar.parse_checked {tokens : List Token} {nextId : NodeId} {program : List Stmt}
    (parsed : (parse tokens nextId).result = .ok program) : Stmt.CheckedAll AnySuper program :=
  Stmt.checkedAll_of_atoms program (parse_atoms parsed)

end Lox
