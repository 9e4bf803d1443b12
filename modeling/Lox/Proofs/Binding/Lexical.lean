import Lox.Proofs.Binding.Spans
import Lox.Proofs.Scoping.Table

/-!
# The table is lexical binding

The walk comes to each node of a program once, though not always from left to right, and records how
many scopes out the text before the node says that its name is declared, or nothing if no scope
declares it (`stmts_visits`). So the table of a program that was read is the relation of lexical
binding (`records_lexical`).
-/

namespace Lox.Binding

/-! ### Records -/

/-- Nodes in some order, and the records of those whose names are declared in a scope. -/
inductive Recorded : List Node → List (NodeId × Nat) → Prop
  | nil : Recorded [] []
  | bound {n : Node} {ns : List Node} {records : List (NodeId × Nat)} {d : Nat}
      (out : DeclaredOut n.name n.before d) (rest : Recorded ns records) :
      Recorded (n :: ns) ((n.id, d) :: records)
  | free {n : Node} {ns : List Node} {records : List (NodeId × Nat)}
      (nowhere : ∀ d, ¬ DeclaredOut n.name n.before d) (rest : Recorded ns records) :
      Recorded (n :: ns) records

namespace Recorded

variable {ns ns' : List Node} {records records' : List (NodeId × Nat)}

theorem append (h : Recorded ns records) (k : Recorded ns' records') :
    Recorded (ns ++ ns') (records ++ records') := by
  induction h with
  | nil => exact k
  | bound out _ ih => exact .bound out ih
  | free nowhere _ ih => exact .free nowhere ih

theorem mem_iff (h : Recorded ns records) {p : NodeId × Nat} :
    p ∈ records ↔ ∃ n ∈ ns, n.id = p.1 ∧ DeclaredOut n.name n.before p.2 := by
  induction h with
  | nil => simp
  | @bound n ns records d out _ ih =>
    rw [List.mem_cons, List.exists_mem_cons_iff, ih]
    refine or_congr ⟨?_, fun ⟨same, out'⟩ => Prod.ext same.symm (out'.unique out)⟩ Iff.rfl
    rintro rfl
    exact ⟨rfl, out⟩
  | @free n ns records nowhere _ ih =>
    rw [List.exists_mem_cons_iff, ih]
    exact ⟨.inr, fun h => h.resolve_left fun ⟨_, out⟩ => nowhere _ out⟩

theorem ids (h : Recorded ns records) :
    (records.map Prod.fst).Sublist (ns.map Node.id) := by
  induction h with
  | nil => exact List.Sublist.refl _
  | bound _ _ ih => exact ih.cons_cons _
  | free _ _ ih => exact ih.cons _

end Recorded

/-! ### Visits -/

/-- From the one walk to the other each node of the text is visited once. -/
def Visits (before text : List Mark) (w w' : Walk) : Prop :=
  ∃ order records, order.Perm (nodes before text) ∧ Recorded order records ∧
    w'.records = records.reverse ++ w.records

namespace Visits

variable {before text more : List Mark} {w w' w'' : Walk}

theorem none (bare : nodes before text = []) (same : w'.records = w.records) :
    Visits before text w w' :=
  ⟨[], [], bare ▸ .refl _, .nil, same⟩

theorem mark (m : Mark) (bare : nodes before [m] = []) : Visits before [m] w w := none bare rfl

theorem of_records {u u' : Walk} (h : Visits before text w w') (same : u.records = w.records)
    (same' : u'.records = w'.records) : Visits before text u u' := by
  obtain ⟨order, records, perm, recorded, added⟩ := h
  exact ⟨order, records, perm, recorded, by rw [same', added, same]⟩

theorem append (h : Visits before text w w') (k : Visits (before ++ text) more w' w'') :
    Visits before (text ++ more) w w'' := by
  obtain ⟨order, records, perm, recorded, added⟩ := h
  obtain ⟨order', records', perm', recorded', added'⟩ := k
  refine ⟨order ++ order', records ++ records', ?_, recorded.append recorded', ?_⟩
  · rw [nodes_append]
    exact perm.append perm'
  · rw [added', added, List.reverse_append, List.append_assoc]

/-- What stands later may be visited first. -/
theorem swap (h : Visits (before ++ text) more w w') (k : Visits before text w' w'') :
    Visits before (text ++ more) w w'' := by
  obtain ⟨order, records, perm, recorded, added⟩ := h
  obtain ⟨order', records', perm', recorded', added'⟩ := k
  refine ⟨order ++ order', records ++ records', ?_, recorded.append recorded', ?_⟩
  · rw [nodes_append]
    exact (perm.append perm').trans List.perm_append_comm
  · rw [added', added, List.reverse_append, List.append_assoc]

theorem declares {name : String} (h : Visits (before ++ [.declares name]) text w w') :
    Visits before ([.declares name] ++ text) w w' :=
  (mark (.declares name) rfl).append h

theorem declaring {names : List String} (h : Visits (before ++ declaring names) text w w') :
    Visits before (declaring names ++ text) w w' := by
  induction names generalizing before with
  | nil =>
    rw [Lox.declaring, List.map_nil, List.append_nil] at h
    exact h
  | cons name names ih =>
    refine declares (ih ?_)
    rw [List.append_assoc]
    exact h

theorem inScope {names : List String}
    (h : Visits (before ++ [.enter] ++ Lox.declaring names) text w w') :
    Visits before (inScope names text) w w' := by
  rw [Lox.inScope, List.append_assoc, List.append_assoc]
  refine (mark .enter rfl).append (declaring ?_)
  exact h.append (mark .leave rfl)

end Visits

/-! ### Places -/

/-- The walk is at the end of the text. Outside of classes no scope declares `this`. -/
structure At (before : List Mark) (c : Context) (w : Walk) : Prop where
  spans : Spans before w.scopes
  this : c.family = .none → distance w.scopes "this" = none

namespace At

variable {before more : List Mark} {c : Context} {w w' : Walk} {names : List String}

theorem of_scopes (h : At before c w) (same : w'.scopes = w.scopes) : At before c w' :=
  ⟨same ▸ h.spans, same ▸ h.this⟩

theorem extend (h : At before c w) (k : Contributes more names)
    (adds : Adds names w.scopes w'.scopes) (other : "this" ∉ names) : At (before ++ more) c w' := by
  refine ⟨h.spans.extend k adds, fun outside => ?_⟩
  have absent := h.this outside
  revert adds absent
  generalize w.scopes = scopes
  generalize w'.scopes = scopes'
  intro adds absent
  cases adds with
  | top => exact absent
  | inner own =>
    rw [distance_cons] at absent ⊢
    have same := own "this"
    rw [or_iff_left other] at same
    split at absent
    · cases absent
    · next unbound =>
      rw [if_neg (mt same.1 unbound)]
      exact absent

theorem keep (h : At before c w) (k : Contributes more []) (same : w'.scopes = w.scopes) :
    At (before ++ more) c w' :=
  h.extend k (same ▸ .refl _) List.not_mem_nil

theorem enter (h : At before c w) : At (before ++ [.enter]) c (w.openScope []) where
  spans := h.spans.enter
  this outside := by
    show distance ([] :: w.scopes) "this" = none
    rw [distance_cons, h.this outside]
    rfl

theorem declare (h : At before c w) {name : Token} (declarable : name.Declarable) :
    At (before ++ [.declares name.lexeme]) c (w.declare name) :=
  h.extend (.declares _) (declare_adds w name)
    (mt List.mem_singleton.1 (Ne.symm declarable.1))

theorem introduce (h : At before c w) {name : Token} (declarable : name.Declarable) :
    At (before ++ [.declares name.lexeme]) c ((w.declare name).define name) :=
  h.extend (.declares _) (introduce_defines w name).adds
    (mt List.mem_singleton.1 (Ne.symm declarable.1))

theorem params (h : At before c w) {names : List Token} (declarable : ∀ p ∈ names, p.Declarable) :
    At (before ++ declaring (names.map (·.lexeme))) c (params w names) := by
  refine h.extend (.declaring _) (params_defines w names).adds fun mem => ?_
  obtain ⟨p, known, same⟩ := List.mem_map.1 mem
  exact (declarable p known).1 same

theorem stmt (h : At before c w) {s : Stmt} {inLoop : Bool} (formed : s.Formed inLoop)
    (proper : s.Proper) : At (before ++ s.marks) c (stmt c w s) := by
  refine h.extend (stmt_contributes s formed) (stmt_defines c w formed).adds fun mem => ?_
  obtain ⟨t, known, same⟩ := List.mem_map.1 mem
  cases s with
  | var name initializer | function d | «class» name superclass methods =>
    obtain rfl := List.mem_singleton.1 known
    exact proper.1.1 same
  | expression | print | block | ite | «while» | «break» | «return» => cases known

/-- A scope with one name that is there from the start. -/
theorem synthetic (h : Spans before w.scopes) (name : String) :
    Spans (before ++ [.enter] ++ declaring [name]) ([(name, true)] :: w.scopes) := by
  refine h.enter.extend (.declaring [name]) (.inner fun x => ?_)
  rw [updates_cons [] name true x, List.mem_singleton]
  by_cases same : x = name
  · simp [same]
  · simp [same]

end At

/-! ### Expressions -/

theorem refer_visits {before : List Mark} {w : Walk} (h : Spans before w.scopes) (id : NodeId)
    (name : String) : Visits before [.refers id name] w (w.refer id name) := by
  have found : w.distance? name = distance w.scopes name := rfl
  unfold Walk.refer
  rw [found]
  cases at_ : distance w.scopes name with
  | some d =>
    have out : DeclaredOut name before d := (distance_iff h name d).1 at_
    exact ⟨[⟨before, id, name⟩], [(id, d)], .refl _, .bound out .nil, rfl⟩
  | none =>
    refine ⟨[⟨before, id, name⟩], [], .refl _, .free (fun d out => ?_) .nil, rfl⟩
    cases at_.symm.trans ((distance_iff h name d).2 out)

theorem this_visits {before : List Mark} {c : Context} {w : Walk} (h : At before c w) (id : NodeId)
    {keyword : Token} (spelled : keyword.lexeme = "this") :
    Visits before [.refers id keyword.lexeme] w (this c w id keyword) := by
  unfold this
  split
  · next outside =>
    refine ⟨[⟨before, id, keyword.lexeme⟩], [], .refl _, .free (fun d out => ?_) .nil, rfl⟩
    rw [spelled] at out
    cases (h.this outside).symm.trans ((distance_iff h.spans _ d).2 out)
  · exact refer_visits h.spans id _

theorem super_visits {before : List Mark} {c : Context} {w : Walk} (h : Spans before w.scopes)
    (id : NodeId) (keyword : Token) :
    Visits before [.refers id keyword.lexeme] w (super c w id keyword) := by
  unfold super
  dsimp only
  split
  · exact (refer_visits (w := w.fault keyword .superOutsideClass) h id _).of_records rfl rfl
  · exact (refer_visits (w := w.fault keyword .superWithoutSuperclass) h id _).of_records rfl rfl
  · exact refer_visits h id _

section Expressions

variable {c : Context}

mutual

theorem expr_visits : (w : Walk) → (e : Expr) → e.Proper → {before : List Mark} → At before c w →
    Visits before e.marks w (expr c w e)
  | _, .literal _, _, _, _ => .none rfl rfl
  | w, .unary _ right, proper, _, h => expr_visits w right proper h
  | w, .binary left _ right, proper, _, h =>
    (expr_visits w left proper.1 h).append
      (expr_visits _ right proper.2 (h.keep (expr_contributes left) (expr_scopes c w left)))
  | w, .logical left _ right, proper, _, h =>
    (expr_visits w left proper.1 h).append
      (expr_visits _ right proper.2 (h.keep (expr_contributes left) (expr_scopes c w left)))
  | w, .group inner, proper, _, h => expr_visits w inner proper h
  | w, .variable id name, _, _, h => by
    rw [expr]
    split
    · exact (refer_visits (w := w.fault name .readInOwnInitializer) h.spans id _).of_records rfl rfl
    · exact refer_visits h.spans id _
  | w, .assign id name value, proper, _, h => by
    -- The name stands first, but it is looked at last.
    have value := expr_visits w value proper.2 (h.keep (.refers id name.lexeme) rfl)
    exact value.swap (refer_visits (h.of_scopes (expr_scopes c w _)).spans id name.lexeme)
  | w, .call callee _ arguments, proper, _, h =>
    (expr_visits w callee proper.1 h).append
      (exprs_visits _ arguments proper.2 (h.keep (expr_contributes callee) (expr_scopes c w callee)))
  | w, .get object _, proper, _, h => expr_visits w object proper h
  | w, .set object _ value, proper, _, h =>
    -- The object stands first, but it is looked at last.
    (expr_visits w value proper.2 (h.keep (expr_contributes object) rfl)).swap
      (expr_visits _ object proper.1 (h.of_scopes (expr_scopes c w value)))
  | _, .this id _, proper, _, h => this_visits h id proper
  | _, .super id keyword _, _, _, h => super_visits h.spans id keyword

theorem exprs_visits : (w : Walk) → (es : List Expr) → Expr.ProperAll es → {before : List Mark} →
    At before c w → Visits before (Expr.marksAll es) w (exprs c w es)
  | _, [], _, _, _ => .none rfl rfl
  | w, e :: es, proper, _, h =>
    (expr_visits w e proper.1 h).append
      (exprs_visits _ es proper.2 (h.keep (expr_contributes e) (expr_scopes c w e)))

end

theorem expr?_visits (w : Walk) (o : Option Expr) (proper : Expr.ProperOption o)
    {before : List Mark} (h : At before c w) :
    Visits before (Expr.marksOption o) w (expr? c w o) := by
  cases o with
  | none => exact .none rfl rfl
  | some e => exact expr_visits w e proper h

end Expressions

/-! ### Statements -/

theorem checkReturn_records (c : Context) (w : Walk) (keyword : Token) (hasValue : Bool) :
    (checkReturn c w keyword hasValue).records = w.records := by
  unfold checkReturn
  dsimp only
  split <;> split <;> rfl

theorem checkSuperclass_records (w : Walk) (name : Token) (e : Expr) :
    (checkSuperclass w name e).records = w.records := by
  unfold checkSuperclass
  split
  · split <;> rfl
  · rfl

theorem introduce_records (w : Walk) (name : Token) :
    ((w.declare name).define name).records = w.records := by
  rw [define_records, declare_records]

theorem isSuperclass_proper {superclass : Option Expr} (h : IsSuperclass superclass) :
    Expr.ProperOption superclass := by
  cases superclass with
  | none => trivial
  | some e =>
    obtain ⟨id, name, rfl, declarable⟩ := h
    exact declarable

/-- The name of a class is declared before its superclass is looked at. -/
theorem classHead_visits {c : Context} {w : Walk} {name : Token} {superclass : Option Expr}
    (proper : Expr.ProperOption superclass) {before : List Mark}
    (h : At before c ((w.declare name).define name)) :
    Visits before (Expr.marksOption superclass) w (classHead c w name superclass) := by
  cases superclass with
  | none => exact .none rfl (introduce_records w name)
  | some e =>
    have checked := checkSuperclass_scopes ((w.declare name).define name) name e
    have head : At before { c with family := .derived }
        (checkSuperclass ((w.declare name).define name) name e) :=
      ⟨checked ▸ h.spans, nofun⟩
    exact (expr_visits _ e proper head).of_records
      ((checkSuperclass_records _ name e).trans (introduce_records w name)).symm rfl

/-- The methods of a class are in one scope more if it has a superclass. -/
theorem openClass_visits {before text : List Mark} {w : Walk} (h : Spans before w.scopes)
    (derived : Bool) {w' : Walk}
    (inner : ∀ inside, Spans inside (openClass w derived).scopes →
      Visits inside text (openClass w derived) w') :
    Visits before (inClass derived text) w (closeClass w' derived) := by
  cases derived with
  | false =>
    have inside := inner _ (At.synthetic h "this")
    exact inside.inScope.of_records rfl rfl
  | true =>
    have inside := inner _ (At.synthetic (w := w.openScope superScope) (At.synthetic h "super") "this")
    exact inside.inScope.inScope.of_records rfl rfl

mutual

theorem stmt_visits : (c : Context) → (w : Walk) → (s : Stmt) → {inLoop : Bool} →
    s.Formed inLoop → s.Proper → {before : List Mark} → At before c w →
    Visits before s.marks w (stmt c w s)
  | _, w, .expression e, _, _, proper, _, h => expr_visits w e proper h
  | _, w, .print e, _, _, proper, _, h => expr_visits w e proper h
  | _, w, .var name initializer, _, _, proper, _, h =>
    ((expr?_visits _ initializer proper.2 (h.declare proper.1)).of_records
      (declare_records w name).symm (define_records _ name)).declares
  | c, w, .block body, _, formed, proper, before, h => by
    have start : At (before ++ [.enter] ++ declaring []) c (w.openScope []) := by
      rw [declaring, List.map_nil, List.append_nil]
      exact h.enter
    exact (stmts_visits c (w.openScope []) body formed proper start).inScope.of_records rfl rfl
  | c, w, .ite condition thenBranch none, _, formed, proper, _, h =>
    (expr_visits w condition proper.1 h).append
      (stmt_visits c _ thenBranch formed.1 proper.2.1
        (h.keep (expr_contributes condition) (expr_scopes c w condition)))
  | c, w, .ite condition thenBranch (some elseBranch), _, formed, proper, _, h => by
    have between := h.keep (expr_contributes condition) (expr_scopes c w condition)
    have first := stmt_visits c _ thenBranch formed.1.1 proper.2.1.1 between
    have second := stmt_visits c _ elseBranch formed.2.1 proper.2.2.1
      (between.stmt formed.1.1 proper.2.1.1)
    exact (expr_visits w condition proper.1 h).append (first.append second)
  | c, w, .while condition body, _, formed, proper, _, h =>
    (expr_visits w condition proper.1 h).append
      (stmt_visits c _ body formed.1 proper.2.1
        (h.keep (expr_contributes condition) (expr_scopes c w condition)))
  | _, _, .break _, _, _, _, _, _ => .none rfl rfl
  | c, w, .function (.mk name ps body), _, formed, proper, before, h => by
    have start : At (before ++ [.declares name.lexeme]) { c with body := .function }
        ((w.declare name).define name) :=
      ⟨(h.introduce proper.1).spans, (h.introduce proper.1).this⟩
    exact ((routine_visits _ _ (.mk name ps body) formed proper.2 start).of_records
      (introduce_records w name).symm rfl).declares
  | c, w, .return keyword value, _, _, proper, _, h =>
    (expr?_visits _ value proper (h.of_scopes (checkReturn_scopes c w keyword _))).of_records
      (checkReturn_records c w keyword _).symm rfl
  | c, w, .class name superclass methods, _, formed, proper, before, h => by
    have declared := h.introduce proper.1
    have head := classHead_visits (isSuperclass_proper proper.2.1) declared
    have inside := declared.keep (expr?_contributes superclass)
      (classHead_scopes c w name superclass)
    refine (head.append (openClass_visits inside.spans superclass.isSome fun place spans => ?_)).declares
    refine routines_visits _ _ methods formed.2 proper.2.2 ⟨spans, ?_⟩
    -- In a class there is a scope of `this`.
    dsimp only
    split <;> nofun

theorem stmts_visits : (c : Context) → (w : Walk) → (ss : List Stmt) → {inLoop : Bool} →
    Stmt.FormedAll inLoop ss → Stmt.ProperAll ss → {before : List Mark} → At before c w →
    Visits before (Stmt.marksAll ss) w (stmts c w ss)
  | _, _, [], _, _, _, _, _ => .none rfl rfl
  | c, w, s :: ss, _, formed, proper, _, h =>
    (stmt_visits c w s formed.1 proper.1 h).append
      (stmts_visits c _ ss formed.2 proper.2 (h.stmt formed.1 proper.1))

theorem routine_visits : (c : Context) → (w : Walk) → (d : FunctionDecl) → d.Formed → d.Proper →
    {before : List Mark} → At before c w → Visits before d.marks w (routine c w d)
  | c, w, .mk _ ps body, formed, proper, _, h =>
    (stmts_visits c (params (w.openScope []) ps) body formed proper.2
      (h.enter.params proper.1)).inScope.of_records (params_silent (w.openScope []) ps).2.symm rfl

theorem routines_visits : (c : Context) → (w : Walk) → (ds : List FunctionDecl) →
    FunctionDecl.FormedAll ds → FunctionDecl.ProperAll ds → {before : List Mark} → At before c w →
    Visits before (FunctionDecl.marksAll ds) w (routines c w ds)
  | _, _, [], _, _, _, _ => .none rfl rfl
  | c, w, .mk name ps body :: ds, formed, proper, before, h => by
    have start : At before { c with body := methodBody name } w := ⟨h.spans, h.this⟩
    have first := routine_visits { c with body := methodBody name } w (.mk name ps body) formed.1
      proper.1 start
    have back := routine_scopes { c with body := methodBody name } w (.mk name ps body)
    exact first.append (routines_visits c _ ds formed.2 proper.2
      (h.keep (routine_contributes (.mk name ps body) formed.1) back))

end

/-! ### Programs -/

/-- The table of a program, against its text. -/
structure Lexical (program : List Stmt) : Prop where
  /-- All nodes that name a binding stand in the text, each once and with an identity of its own. -/
  nodes : ((programNodes program).map Node.id).Perm (Stmt.idsAll program)
  distinct : (Stmt.idsAll program).Nodup
  /-- The walk visits each of them once. -/
  visits : ∃ order, order.Perm (programNodes program) ∧
    Recorded order (Binding.program program).records.reverse
  /-- A node has just the record that the text before it calls for, if any. -/
  recorded : ∀ n ∈ programNodes program, ∀ d,
    (n.id, d) ∈ (Binding.program program).records ↔ DeclaredOut n.name n.before d
  /-- No node is recorded twice. -/
  once : ((Binding.program program).records.map Prod.fst).Nodup
  only : ∀ p ∈ (Binding.program program).records, p.1 ∈ Stmt.idsAll program
  /-- What is recorded is what a run finds. -/
  table : ∀ m : Machine, (∀ id ∈ Stmt.idsAll program, m.distances[id]? = none) →
    ∀ n ∈ programNodes program, ∀ d,
      (m.bind program).2.distances[n.id]? = some d ↔ DeclaredOut n.name n.before d
  /-- The innermost scope gains the names of a statement. -/
  scopes : ∀ s, PartOf program s → ∀ p : Pass,
    Defines s.introduced p.walk.scopes (p.stmt s).walk.scopes
  /-- The function and the class around what comes after a statement are those around it. -/
  context : ∀ (p : Pass) (s : Stmt), (p.stmt s).around = p.around

theorem at_start : At [] .program .start := ⟨.top balanced_nil, fun _ => rfl⟩

theorem lookup_iff {records : List (NodeId × Nat)} (once : (records.map Prod.fst).Nodup)
    {id : NodeId} {d : Nat} : records.lookup id = some d ↔ (id, d) ∈ records := by
  induction records with
  | nil => simp
  | cons p records ih =>
    obtain ⟨key, e⟩ := p
    obtain ⟨other, once⟩ := List.nodup_cons.1 once
    rw [List.lookup_cons, List.mem_cons, Prod.mk.injEq, ← ih once]
    by_cases same : id = key
    · subst same
      have absent : records.lookup id = none :=
        Scoping.lookup_none fun p mem alike => other (List.mem_map.2 ⟨p, mem, alike⟩)
      rw [beq_self_eq_true, absent]
      exact ⟨fun found => .inl ⟨rfl, (Option.some.inj found).symm⟩,
        fun h => h.elim (fun both => congrArg some both.2.symm) nofun⟩
    · rw [beq_false_of_ne same]
      exact ⟨.inr, fun h => h.resolve_left fun both => same both.1⟩

theorem program_lexical {program : List Stmt} (formed : Stmt.FormedAll false program)
    (proper : Stmt.ProperAll program) (distinct : (Stmt.idsAll program).Nodup) :
    Lexical program := by
  obtain ⟨order, records, perm, recorded, added⟩ :=
    stmts_visits .program .start program formed proper at_start
  have same : (Binding.program program).records = records.reverse := by
    rw [program_eq]
    exact added.trans (List.append_nil _)
  have nodes : ((programNodes program).map Node.id).Perm (Stmt.idsAll program) := by
    rw [programNodes, nodes_ids]
    exact stmts_ids program
  have ids : (order.map Node.id).Perm (Stmt.idsAll program) := (perm.map Node.id).trans nodes
  have once : ((Binding.program program).records.map Prod.fst).Nodup := by
    rw [same, List.map_reverse, List.nodup_reverse]
    exact (ids.nodup_iff.2 distinct).sublist recorded.ids
  have exact_ : ∀ n ∈ programNodes program, ∀ d,
      (n.id, d) ∈ (Binding.program program).records ↔ DeclaredOut n.name n.before d := by
    intro n known d
    rw [same, List.mem_reverse, recorded.mem_iff]
    constructor
    · rintro ⟨n', known', alike, out⟩
      have one := List.inj_on_of_nodup_map (nodes.nodup_iff.2 distinct) (perm.mem_iff.1 known') known
        alike
      exact one ▸ out
    · exact fun out => ⟨n, perm.mem_iff.2 known, rfl, out⟩
  exact {
    nodes, distinct, once
    visits := ⟨order, perm, same ▸ (List.reverse_reverse records).symm ▸ recorded⟩
    recorded := exact_
    only := fun p mem => Scoping.records_ids mem
    table := fun m unknown n known d => by
      have absent := unknown n.id (nodes.mem_iff.1 (List.mem_map_of_mem known))
      show (List.foldr _ m.distances (Binding.program program).records)[n.id]? = _ ↔ _
      rw [Scoping.getElem?_records, absent, Option.or_none, lookup_iff once]
      exact exact_ n known d
    scopes := fun s part p => by
      obtain ⟨inLoop, formed⟩ := part.formed formed
      rw [Pass.stmt_eq]
      exact stmt_defines p.around p.walk formed
    context := Pass.stmt_around }

/-- The table of a program that was read is the relation of lexical binding. -/
theorem records_lexical {tokens : List Token} {nextId : NodeId} {program : List Stmt}
    (spelled : ∀ t ∈ tokens, t.Spelled)
    (parsed : (Grammar.parse tokens nextId).result = .ok program) : Lexical program := by
  obtain ⟨fresh, proper⟩ := Grammar.parse_good parsed
  exact program_lexical (Grammar.parse_formed parsed) (proper spelled) fresh.distinct

/-- Around the method are its class, the scope of `super` and the function; `f` and `b` are declared in
no scope. -/
theorem records_lexical_method :
    let source := "fun f(a) \x7b \x7b var a = a; \x7d class C < f " ++
      "\x7b m() \x7b return super.m(this, a = b); \x7d \x7d \x7d"
    let tokens := (tokenize source).1
    (∀ t ∈ tokens, t.Spelled) ∧
    ∃ program, (Grammar.parse tokens 0).result = .ok program ∧ Lexical program ∧
      (Binding.program program).records = [(6, 3), (3, 1), (2, 2), (0, 0)] := by
  intro source tokens
  have spelled := tokenize_spelled source
  have read : ((Grammar.parse tokens 0).result.toOption.map fun program =>
      (Binding.program program).records) = some [(6, 3), (3, 1), (2, 2), (0, 0)] := by
    decide +kernel
  obtain ⟨program, found, records⟩ := Option.map_eq_some_iff.1 read
  have parsed : (Grammar.parse tokens 0).result = .ok program := by
    cases result : (Grammar.parse tokens 0).result with
    | ok tree =>
      rw [result] at found
      cases found
      rfl
    | error faults =>
      rw [result] at found
      cases found
  exact ⟨spelled, program, parsed, records_lexical spelled parsed, records⟩

end Lox.Binding
