import Lox.Proofs.Grammar.Acceptance
import Lox.Proofs.Tree.Atoms

/-!
# Where atoms come from

Every token in a parsed tree is one of those that were read, and of a kind that the grammar has for
its place; every number is that of such a token (`parse_atoms`). The tree of a `for` is no exception:
what it adds is a literal `true` at most.
-/

namespace Lox

/-- The token of an atom is among `Q` and fits its place. -/
def Atom.Sound (Q : Token → Prop) : Atom → Prop
  | .literal (.number x) => ∃ t, Q t ∧ t.kind = .number x
  | .literal _ => True
  | .token kinds t => Q t ∧ t.kind ∈ kinds

namespace Ebnf

open Grammar (unaryOperators binaryOperators declaration_starts)

variable {Q : Token → Prop}

/-! ### Expressions -/

/-- What is derived from fewer than `bound` tokens, all among `Q`, has sound atoms. -/
def Sounds (Q : Token → Prop) (D : List Token → Expr → Prop) (bound : Nat) : Prop :=
  ∀ {ts e}, ts.length < bound → (∀ t ∈ ts, Q t) → D ts e → ∀ a ∈ e.atoms, a.Sound Q

theorem literal_sound {t : Token} (known : Q t) {l : Literal} (denotes : literalOf? t.kind = some l) :
    (Atom.literal l).Sound Q := by
  cases l with
  | nil | bool | string => trivial
  | number x =>
    refine ⟨t, known, ?_⟩
    unfold literalOf? at denotes
    split at denotes
    · cases denotes
    · cases denotes
    · cases denotes
    · next kind =>
      cases denotes
      exact kind
    · cases denotes
    · cases denotes

section Expressions

variable {D : List Token → Expr → Prop} {bound : Nat} (h : Sounds Q D bound)

theorem join_sound {p : Precedence} {t : Token} (known : Q t) (fits : t.kind ∈ p.operators)
    {left right : Expr} (first : ∀ a ∈ left.atoms, a.Sound Q)
    (second : ∀ a ∈ right.atoms, a.Sound Q) : ∀ a ∈ (p.join left t right).atoms, a.Sound Q := by
  have among : ∀ {q : Precedence}, q ∈ [Precedence.equality, .comparison, .term, .factor] →
      t.kind ∈ q.operators → t.kind ∈ binaryOperators :=
    fun mem known => List.mem_flatMap.2 ⟨_, mem, known⟩
  have operands := List.forall_mem_append.2 ⟨first, second⟩
  cases p with
  | logicOr =>
    exact List.forall_mem_cons.2 ⟨⟨known, List.mem_cons.2 (.inl (List.mem_singleton.1 fits))⟩,
      operands⟩
  | logicAnd => exact List.forall_mem_cons.2 ⟨⟨known, List.mem_cons_of_mem _ fits⟩, operands⟩
  | equality | comparison | term | factor =>
    exact List.forall_mem_cons.2 ⟨⟨known, among (by simp) fits⟩, operands⟩

include h

theorem items_sound {ts : List Token} {es : List Expr} (derived : Items D ts es)
    (short : ts.length < bound) (known : ∀ t ∈ ts, Q t) : ∀ a ∈ Expr.atomsAll es, a.Sound Q := by
  induction derived with
  | one first => exact List.forall_mem_append.2 ⟨h short known first, List.forall_mem_nil _⟩
  | more first _ _ ih =>
    simp only [List.length_append, List.length_cons] at short
    simp only [List.forall_mem_append, List.forall_mem_cons] at known
    exact List.forall_mem_append.2
      ⟨h (by omega) known.1 first, ih (by omega) known.2.2⟩

theorem primary_sounds : Sounds Q (Primary D) (bound + 1) := by
  intro ts e short known derived
  cases derived with
  | literal denotes =>
    exact List.forall_mem_singleton.2 (literal_sound (List.forall_mem_singleton.1 known) denotes)
  | this kind | name kind =>
    exact List.forall_mem_singleton.2
      ⟨List.forall_mem_singleton.1 known, List.mem_singleton.2 kind⟩
  | group _ inner _ =>
    simp only [List.length_cons, List.length_append] at short
    simp only [List.forall_mem_cons, List.forall_mem_append] at known
    have inside := h (by omega) known.2.1 inner
    exact inside
  | «super» keyword _ method =>
    simp only [List.forall_mem_cons] at known
    exact List.forall_mem_cons.2 ⟨⟨known.1, List.mem_singleton.2 keyword⟩,
      List.forall_mem_singleton.2 ⟨known.2.2.1, List.mem_singleton.2 method⟩⟩

theorem suffixes_sound {e e' : Expr} {ts : List Token} (derived : Suffixes D e ts e')
    (short : ts.length < bound + 1) (known : ∀ t ∈ ts, Q t) (first : ∀ a ∈ e.atoms, a.Sound Q) :
    ∀ a ∈ e'.atoms, a.Sound Q := by
  induction derived with
  | done => exact first
  | call _ listing closing _ ih =>
    simp only [List.length_cons, List.length_append] at short
    simp only [List.forall_mem_cons, List.forall_mem_append] at known
    refine ih (by omega) known.2.2.2 (List.forall_mem_cons.2
      ⟨⟨known.2.2.1, List.mem_singleton.2 closing⟩, List.forall_mem_append.2 ⟨first, ?_⟩⟩)
    cases listing with
    | none => exact List.forall_mem_nil _
    | some items _ => exact items_sound h items (by omega) known.2.1
  | property _ name _ ih =>
    simp only [List.length_cons] at short
    simp only [List.forall_mem_cons] at known
    exact ih (by omega) known.2.2
      (List.forall_mem_cons.2 ⟨⟨known.2.1, List.mem_singleton.2 name⟩, first⟩)

theorem call_sounds : Sounds Q (Call D) (bound + 1) := by
  intro ts e short known derived
  obtain ⟨first, others⟩ := derived
  rw [List.length_append] at short
  rw [List.forall_mem_append] at known
  exact suffixes_sound h others (by omega) known.2 (primary_sounds h (by omega) known.1 first)

theorem unary_sounds : Sounds Q (Unary D) (bound + 1) := by
  intro ts e short known derived
  induction derived with
  | operator fits _ ih =>
    rw [List.length_cons] at short
    rw [List.forall_mem_cons] at known
    exact List.forall_mem_cons.2 ⟨⟨known.1, fits⟩, ih (by omega) known.2⟩
  | call derived => exact call_sounds h short known derived

theorem joined_sounds {p : Precedence} : Sounds Q (Joined p D) bound := by
  intro ts e short known derived
  obtain ⟨first, others⟩ := derived
  rw [List.length_append] at short
  rw [List.forall_mem_append] at known
  have start := h (by omega) known.1 first
  have rest : _ < bound := Nat.lt_of_le_of_lt (Nat.le_add_left _ _) short
  have later := known.2
  clear short known first
  induction others with
  | done => exact start
  | more fits operand _ ih =>
    simp only [List.length_cons, List.length_append] at rest
    simp only [List.forall_mem_cons, List.forall_mem_append] at later
    exact ih (join_sound later.1 fits start (h (by omega) later.2.1 operand)) (by omega) later.2.2

theorem assignment_sounds : Sounds Q (Assignment D) (bound + 1) := by
  intro ts e short known derived
  cases derived with
  | name kind _ value =>
    simp only [List.length_cons] at short
    simp only [List.forall_mem_cons] at known
    exact List.forall_mem_cons.2
      ⟨⟨known.1, List.mem_singleton.2 kind⟩, h (by omega) known.2.2 value⟩
  | property object _ kind _ value =>
    simp only [List.length_append, List.length_cons] at short
    simp only [List.forall_mem_append, List.forall_mem_cons] at known
    exact List.forall_mem_cons.2 ⟨⟨known.2.2.1, List.mem_singleton.2 kind⟩,
      List.forall_mem_append.2
        ⟨call_sounds h (by omega) known.1 object, h (by omega) known.2.2.2.2 value⟩⟩
  | operation derived =>
    exact joined_sounds (joined_sounds (joined_sounds (joined_sounds (joined_sounds (joined_sounds
      (unary_sounds h)))))) short known derived

end Expressions

theorem expression_sounds (bound : Nat) : Sounds Q Expression bound := by
  induction bound with
  | zero => exact fun short => absurd short (Nat.not_lt_zero _)
  | succ bound ih =>
    intro ts e short known derived
    obtain ⟨derived⟩ := derived
    exact assignment_sounds ih short known derived

theorem Expression.sound {ts : List Token} {e : Expr} (derived : Expression ts e)
    (known : ∀ t ∈ ts, Q t) : ∀ a ∈ e.atoms, a.Sound Q :=
  expression_sounds _ (Nat.lt_succ_self _) known derived

theorem expressionOption_sound {ts : List Token} {o : Option Expr}
    (derived : ExpressionOption ts o) (known : ∀ t ∈ ts, Q t) :
    ∀ a ∈ Expr.atomsOption o, a.Sound Q := by
  cases derived with
  | none => exact List.forall_mem_nil _
  | some derived => exact derived.sound known

/-! ### Statements -/

theorem varDecl_sound {ts : List Token} {s : Stmt} (derived : VarDecl ts s)
    (known : ∀ t ∈ ts, Q t) : ∀ a ∈ s.atoms, a.Sound Q := by
  cases derived with
  | bare _ kind _ =>
    simp only [List.forall_mem_cons] at known
    exact List.forall_mem_singleton.2 ⟨known.2.1, List.mem_singleton.2 kind⟩
  | initialized _ kind _ value _ =>
    simp only [List.forall_mem_cons, List.forall_mem_append] at known
    exact List.forall_mem_cons.2
      ⟨⟨known.2.1, List.mem_singleton.2 kind⟩, value.sound known.2.2.2.1⟩

theorem exprStmt_sound {ts : List Token} {s : Stmt} (derived : ExprStmt ts s)
    (known : ∀ t ∈ ts, Q t) : ∀ a ∈ s.atoms, a.Sound Q := by
  obtain ⟨value, _⟩ := derived
  exact value.sound (List.forall_mem_append.1 known).1

theorem forTree_sound {is cs ns : List Token} {initializer : Option Stmt}
    {condition increment : Option Expr} (first : ForInitializer is initializer)
    (second : ExpressionOption cs condition) (third : ExpressionOption ns increment)
    (is_known : ∀ t ∈ is, Q t) (cs_known : ∀ t ∈ cs, Q t) (ns_known : ∀ t ∈ ns, Q t) {body : Stmt}
    (sound : ∀ a ∈ body.atoms, a.Sound Q) :
    ∀ a ∈ (forTree initializer condition increment body).atoms, a.Sound Q := by
  have lap : ∀ a ∈ (increment.elim body fun e => .block [body, .expression e]).atoms,
      a.Sound Q := by
    cases third with
    | none => exact sound
    | some value =>
      exact List.forall_mem_append.2
        ⟨sound, List.forall_mem_append.2 ⟨value.sound ns_known, List.forall_mem_nil _⟩⟩
  have test : ∀ a ∈ (condition.getD (.literal (.bool true))).atoms, a.Sound Q := by
    cases second with
    | none => exact List.forall_mem_singleton.2 trivial
    | some value => exact value.sound cs_known
  have repeated := List.forall_mem_append.2 ⟨test, lap⟩
  have after {s : Stmt} (start : ∀ a ∈ s.atoms, a.Sound Q) :=
    List.forall_mem_append.2
      ⟨start, List.forall_mem_append.2 ⟨repeated, List.forall_mem_nil (Atom.Sound Q)⟩⟩
  cases first with
  | none => exact repeated
  | var derived => exact after (varDecl_sound derived is_known)
  | expression derived => exact after (exprStmt_sound derived is_known)

theorem superclass_sound {ts : List Token} {superclass : Option Expr}
    (derived : Superclass ts superclass) (known : ∀ t ∈ ts, Q t) :
    ∀ a ∈ Expr.atomsOption superclass, a.Sound Q := by
  cases derived with
  | none => exact List.forall_mem_nil _
  | some _ kind =>
    simp only [List.forall_mem_cons] at known
    exact List.forall_mem_singleton.2 ⟨known.2.1, List.mem_singleton.2 kind⟩

theorem identifiers_sound {ts names : List Token} (derived : Listing Identifier ts names)
    (known : ∀ t ∈ ts, Q t) : ∀ a ∈ names.map Atom.name, a.Sound Q := by
  cases derived with
  | none => exact List.forall_mem_nil _
  | some items few =>
    clear few
    induction items with
    | one first =>
      obtain ⟨kind⟩ := first
      exact List.forall_mem_singleton.2
        ⟨List.forall_mem_singleton.1 known, List.mem_singleton.2 kind⟩
    | more first _ _ ih =>
      obtain ⟨kind⟩ := first
      simp only [List.forall_mem_append, List.forall_mem_cons] at known
      exact List.forall_mem_cons.2
        ⟨⟨known.1.1, List.mem_singleton.2 kind⟩, ih known.2.2⟩

/-- What is derived from fewer than `bound` tokens, all among `Q`, has sound atoms. -/
structure SoundsStatements (Q : Token → Prop) (dangling : Prop) (bound : Nat) : Prop where
  statement : ∀ {inLoop isOpen ts s}, ts.length < bound → (∀ t ∈ ts, Q t) →
    Statement dangling inLoop isOpen ts s → ∀ a ∈ s.atoms, a.Sound Q
  body : ∀ {inLoop ts ss}, ts.length < bound → (∀ t ∈ ts, Q t) → Body dangling inLoop ts ss →
    ∀ a ∈ Stmt.atomsAll ss, a.Sound Q

section Statements

variable {dangling : Prop} {bound : Nat} (h : SoundsStatements Q dangling bound)

include h

theorem statement_sound {inLoop isOpen : Bool} {ts : List Token} {s : Stmt}
    (short : ts.length < bound + 1) (known : ∀ t ∈ ts, Q t)
    (derived : Statement dangling inLoop isOpen ts s) : ∀ a ∈ s.atoms, a.Sound Q := by
  cases derived with
  | expression derived => exact exprStmt_sound derived known
  | «for» _ _ first second _ third _ body =>
    simp only [List.length_cons, List.length_append] at short
    simp only [List.forall_mem_cons, List.forall_mem_append] at known
    obtain ⟨-, -, is_known, cs_known, -, ns_known, -, ts_known⟩ := known
    exact forTree_sound first second third is_known cs_known ns_known
      (h.statement (by omega) ts_known body)
  | ifThen _ _ condition _ branch =>
    simp only [List.length_cons, List.length_append] at short
    simp only [List.forall_mem_cons, List.forall_mem_append] at known
    exact List.forall_mem_append.2 ⟨condition.sound known.2.2.1,
      h.statement (by omega) known.2.2.2.2 branch⟩
  | ifElse _ _ condition _ branch _ _ other =>
    simp only [List.length_cons, List.length_append] at short
    simp only [List.forall_mem_cons, List.forall_mem_append] at known
    obtain ⟨-, -, cs_known, -, ts_known, -, us_known⟩ := known
    exact List.forall_mem_append.2 ⟨condition.sound cs_known, List.forall_mem_append.2
      ⟨h.statement (by omega) ts_known branch, h.statement (by omega) us_known other⟩⟩
  | print _ value _ =>
    simp only [List.forall_mem_cons, List.forall_mem_append] at known
    exact value.sound known.2.1
  | «return» kind value _ =>
    simp only [List.forall_mem_cons, List.forall_mem_append] at known
    exact List.forall_mem_cons.2
      ⟨⟨known.1, List.mem_singleton.2 kind⟩, expressionOption_sound value known.2.1⟩
  | «while» _ _ condition _ body =>
    simp only [List.length_cons, List.length_append] at short
    simp only [List.forall_mem_cons, List.forall_mem_append] at known
    exact List.forall_mem_append.2 ⟨condition.sound known.2.2.1,
      h.statement (by omega) known.2.2.2.2 body⟩
  | «break» kind _ =>
    simp only [List.forall_mem_cons] at known
    exact List.forall_mem_singleton.2 ⟨known.1, List.mem_singleton.2 kind⟩
  | block _ body _ =>
    simp only [List.length_cons, List.length_append] at short
    simp only [List.forall_mem_cons, List.forall_mem_append] at known
    exact h.body (by omega) known.2.1 body

theorem function_sound {ts : List Token} {d : FunctionDecl} (short : ts.length < bound + 1)
    (known : ∀ t ∈ ts, Q t) (derived : Function (Body dangling false) ts d) :
    ∀ a ∈ d.atoms, a.Sound Q := by
  obtain ⟨kind, -, params, -, -, body, -⟩ := derived
  simp only [List.length_cons, List.length_append] at short
  simp only [List.forall_mem_cons, List.forall_mem_append] at known
  obtain ⟨t_known, -, ps_known, -, -, us_known, -⟩ := known
  exact List.forall_mem_cons.2 ⟨⟨t_known, List.mem_singleton.2 kind⟩, List.forall_mem_append.2
    ⟨identifiers_sound params ps_known, h.body (by omega) us_known body⟩⟩

theorem functions_sound {ts : List Token} {ds : List FunctionDecl} (short : ts.length < bound + 1)
    (known : ∀ t ∈ ts, Q t) (derived : Functions (Body dangling false) ts ds) :
    ∀ a ∈ FunctionDecl.atomsAll ds, a.Sound Q := by
  induction derived with
  | nil => exact List.forall_mem_nil _
  | cons first _ ih =>
    simp only [List.length_append] at short
    rw [List.forall_mem_append] at known
    exact List.forall_mem_append.2
      ⟨function_sound h (by omega) known.1 first, ih (by omega) known.2⟩

theorem declaration_sound {inLoop : Bool} {ts : List Token} {s : Stmt}
    (short : ts.length < bound + 1) (known : ∀ t ∈ ts, Q t)
    (derived : Declaration dangling inLoop ts s) : ∀ a ∈ s.atoms, a.Sound Q := by
  cases derived with
  | «class» _ kind head _ methods _ =>
    simp only [List.length_cons, List.length_append] at short
    simp only [List.forall_mem_cons, List.forall_mem_append] at known
    obtain ⟨-, t_known, ss_known, -, ms_known, -⟩ := known
    exact List.forall_mem_cons.2 ⟨⟨t_known, List.mem_singleton.2 kind⟩, List.forall_mem_append.2
      ⟨superclass_sound head ss_known, functions_sound h (by omega) ms_known methods⟩⟩
  | function _ routine =>
    simp only [List.length_cons] at short
    exact function_sound h (by omega) (List.forall_mem_cons.1 known).2 routine
  | var derived => exact varDecl_sound derived known
  | statement derived => exact statement_sound h short known derived

end Statements

theorem statements_sound (Q : Token → Prop) (dangling : Prop) (bound : Nat) :
    SoundsStatements Q dangling bound := by
  induction bound with
  | zero => exact ⟨fun short => absurd short (Nat.not_lt_zero _),
      fun short => absurd short (Nat.not_lt_zero _)⟩
  | succ bound ih =>
    refine ⟨statement_sound ih, @fun inLoop ts ss short known derived => ?_⟩
    cases derived with
    | nil => exact List.forall_mem_nil _
    | cons first others =>
      obtain ⟨t, us, rfl, -⟩ := declaration_starts first
      simp only [List.length_append, List.length_cons] at short
      rw [List.forall_mem_append] at known
      exact List.forall_mem_append.2
        ⟨declaration_sound ih (by simp; omega) known.1 first, ih.body (by omega) known.2 others⟩

theorem Body.sound {dangling inLoop} {ts : List Token} {ss : List Stmt}
    (derived : Body dangling inLoop ts ss) (known : ∀ t ∈ ts, Q t) :
    ∀ a ∈ Stmt.atomsAll ss, a.Sound Q :=
  (statements_sound Q dangling (ts.length + 1)).body (Nat.lt_succ_self _) known derived

end Ebnf

/-- What a parsed tree holds comes from its tokens before the end, and is in its place. -/
theorem Grammar.parse_atoms {tokens : List Token} {nextId : NodeId} {program : List Stmt}
    (parsed : (parse tokens nextId).result = .ok program) :
    ∀ a ∈ Stmt.atomsAll program, a.Sound fun t => t ∈ tokens ∧ t.kind ≠ .eof := by
  refine (derived_of_parse parsed).sound fun t mem => ?_
  have proper := List.all_eq_true.1 List.all_takeWhile t mem
  exact ⟨(List.takeWhile_sublist _).subset mem, by simpa using proper⟩

end Lox
