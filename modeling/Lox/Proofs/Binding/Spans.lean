import Lox.Proofs.Binding.Rules
import Lox.Proofs.Binding.Text

/-!
# Texts and the scopes of the walk

The walk comes to each place of a program with the scopes that are open there, each with the names
that it declares by then (`Spans`). So it counts to the declaration that the text before the place
calls for (`distance_iff`). A statement gives its names to the innermost scope and changes nothing
else (`stmt_adds`).
-/

namespace Lox.Binding

/-! ### What trees contribute -/

section Trees

mutual

theorem expr_contributes : (e : Expr) → Contributes e.marks []
  | .literal _ => .nil
  | .unary _ right => expr_contributes right
  | .binary left _ right => (expr_contributes left).append (expr_contributes right)
  | .logical left _ right => (expr_contributes left).append (expr_contributes right)
  | .group inner => expr_contributes inner
  | .variable id name => .refers id name.lexeme
  | .assign id name value => (Contributes.refers id name.lexeme).append (expr_contributes value)
  | .call callee _ arguments => (expr_contributes callee).append (exprs_contribute arguments)
  | .get object _ => expr_contributes object
  | .set object _ value => (expr_contributes object).append (expr_contributes value)
  | .this id keyword => .refers id keyword.lexeme
  | .super id keyword _ => .refers id keyword.lexeme

theorem exprs_contribute : (es : List Expr) → Contributes (Expr.marksAll es) []
  | [] => .nil
  | e :: es => (expr_contributes e).append (exprs_contribute es)

end

theorem expr?_contributes (o : Option Expr) : Contributes (Expr.marksOption o) [] := by
  cases o with
  | none => exact .nil
  | some e => exact expr_contributes e

theorem introduced_nil {s : Stmt} (quiet : s.declares = false) : s.introduced = [] := by
  rw [Stmt.introduced, declared?_none quiet]
  rfl

mutual

theorem stmt_contributes : (s : Stmt) → {inLoop : Bool} → s.Formed inLoop →
    Contributes s.marks s.introduced
  | .expression e, _, _ => expr_contributes e
  | .print e, _, _ => expr_contributes e
  | .var name initializer, _, _ => (Contributes.declares _).append (expr?_contributes initializer)
  | .block body, _, formed => .inScope _ (stmts_balanced body formed)
  | .ite condition thenBranch none, _, formed => by
    have branch := stmt_contributes thenBranch formed.1
    rw [introduced_nil formed.2] at branch
    exact (expr_contributes condition).append branch
  | .ite condition thenBranch (some elseBranch), _, formed => by
    have first := stmt_contributes thenBranch formed.1.1
    have second := stmt_contributes elseBranch formed.2.1
    rw [introduced_nil formed.1.2] at first
    rw [introduced_nil formed.2.2] at second
    exact (expr_contributes condition).append (first.append second)
  | .while condition body, _, formed => by
    have lap := stmt_contributes body formed.1
    rw [introduced_nil formed.2] at lap
    exact (expr_contributes condition).append lap
  | .break _, _, _ => .nil
  | .function d, _, formed => (Contributes.declares _).append (routine_contributes d formed)
  | .return _ value, _, _ => expr?_contributes value
  | .class name superclass methods, _, formed =>
    (Contributes.declares _).append ((expr?_contributes superclass).append
      (.inClass _ (routines_contribute methods formed.2).balanced))

theorem stmts_balanced : (ss : List Stmt) → {inLoop : Bool} → Stmt.FormedAll inLoop ss →
    Balanced (Stmt.marksAll ss)
  | [], _, _ => balanced_nil
  | s :: ss, _, formed =>
    (stmt_contributes s formed.1).balanced.append_iff.2 (stmts_balanced ss formed.2)

theorem routine_contributes : (d : FunctionDecl) → d.Formed → Contributes d.marks []
  | .mk _ _ body, formed => .inScope _ (stmts_balanced body formed)

theorem routines_contribute : (ds : List FunctionDecl) → FunctionDecl.FormedAll ds →
    Contributes (FunctionDecl.marksAll ds) []
  | [], _ => .nil
  | d :: ds, formed => (routine_contributes d formed.1).append (routines_contribute ds formed.2)

end

end Trees

/-! ### Scopes -/

/-- The scopes are those that are open at the end of the text, with the names that they declare. -/
inductive Spans : List Mark → List Scope → Prop
  | top {text : List Mark} (closed : Balanced text) : Spans text []
  | inner {outer inner : List Mark} {scope : Scope} {scopes : List Scope} (out : Spans outer scopes)
      (closed : Balanced inner)
      (names : ∀ x, (scope.lookup x).isSome ↔ Introduces inner x) :
      Spans (outer ++ .enter :: inner) (scope :: scopes)

/-- Some names come to the innermost scope, defined or not, and nothing else changes. -/
inductive Adds (names : List String) : List Scope → List Scope → Prop
  | top : Adds names [] []
  | inner {scope scope' : Scope} {outer : List Scope}
      (own : ∀ x, (scope'.lookup x).isSome ↔ (scope.lookup x).isSome ∨ x ∈ names) :
      Adds names (scope :: outer) (scope' :: outer)

/-- As names are introduced in the innermost scope, they are defined there. -/
inductive Defines (names : List String) : List Scope → List Scope → Prop
  | top : Defines names [] []
  | inner {scope scope' : Scope} {outer : List Scope}
      (own : ∀ x, scope'.lookup x = if x ∈ names then some true else scope.lookup x) :
      Defines names (scope :: outer) (scope' :: outer)

theorem Adds.refl (scopes : List Scope) : Adds [] scopes scopes := by
  cases scopes with
  | nil => exact .top
  | cons scope outer => exact .inner fun x => by simp

theorem Defines.adds {names : List String} {scopes scopes' : List Scope}
    (h : Defines names scopes scopes') : Adds names scopes scopes' := by
  cases h with
  | top => exact .top
  | inner own =>
    refine .inner fun x => ?_
    rw [own x]
    by_cases mem : x ∈ names
    · simp [mem]
    · simp [mem]

namespace Spans

variable {text more : List Mark} {scopes scopes' : List Scope} {names : List String}

theorem enter (h : Spans text scopes) : Spans (text ++ [.enter]) ([] :: scopes) :=
  .inner h balanced_nil fun x => by simp [Contributes.nil.introduces]

/-- A text that leaves all scopes that it enters goes on in those that were open before. -/
theorem extend (h : Spans text scopes) (k : Contributes more names)
    (adds : Adds names scopes scopes') : Spans (text ++ more) scopes' := by
  cases h with
  | top closed =>
    cases adds
    exact .top (closed.append_iff.2 k.balanced)
  | inner out closed own =>
    cases adds with
    | inner change =>
      rw [List.append_assoc, List.cons_append]
      refine .inner out (closed.append_iff.2 k.balanced) fun x => ?_
      rw [change, own, introduces_append closed, k.introduces]

end Spans

theorem not_declaredOut {text : List Mark} (closed : Balanced text) (name : String) (d : Nat) :
    ¬ DeclaredOut name text d := by
  intro h
  cases h with
  | here inner => exact not_balanced_enter inner _ closed
  | further inner => exact not_balanced_enter inner _ closed

/-- The scopes are counted as the text before calls for. -/
theorem distance_iff {text : List Mark} {scopes : List Scope} (h : Spans text scopes) (name : String)
    (d : Nat) : distance scopes name = some d ↔ DeclaredOut name text d := by
  induction h generalizing d with
  | top closed => exact ⟨nofun, fun out => absurd out (not_declaredOut closed name d)⟩
  | @inner outer inner scope scopes _ closed names ih =>
    rw [distance_cons]
    by_cases own : Introduces inner name
    · rw [if_pos ((names name).2 own)]
      have here : DeclaredOut name (outer ++ .enter :: inner) 0 := .here closed own
      exact ⟨fun zero => Option.some.inj zero ▸ here, fun out => congrArg some (here.unique out)⟩
    · rw [if_neg (mt (names name).1 own)]
      constructor
      · intro found
        obtain ⟨k, further, rfl⟩ := Option.map_eq_some_iff.1 found
        exact .further closed own ((ih k).1 further)
      · intro out
        generalize whole : outer ++ .enter :: inner = text at out
        cases out with
        | here closed' own' =>
          obtain ⟨-, rfl⟩ := enter_unique whole closed closed'
          exact absurd own' own
        | further closed' _ out =>
          obtain ⟨rfl, -⟩ := enter_unique whole closed closed'
          rw [(ih _).2 out]
          rfl

/-! ### What the walk does to scopes -/

theorem declare_adds (w : Walk) (name : Token) :
    Adds [name.lexeme] w.scopes (w.declare name).scopes := by
  unfold Walk.declare
  cases scopes : w.scopes with
  | nil =>
    show Adds _ [] w.scopes
    rw [scopes]
    exact .top
  | cons scope outer =>
    dsimp only
    split
    · next declared =>
      show Adds _ _ w.scopes
      rw [scopes]
      refine .inner fun x => ⟨.inl, fun h => h.elim id fun mem => ?_⟩
      rw [List.mem_singleton.1 mem]
      exact declared
    · refine .inner fun x => ?_
      rw [updates_cons scope name.lexeme false x]
      by_cases same : x = name.lexeme
      · simp [same]
      · simp [same]

theorem introduce_defines (w : Walk) (name : Token) :
    Defines [name.lexeme] w.scopes ((w.declare name).define name).scopes := by
  cases scopes : w.scopes with
  | nil =>
    have same : ((w.declare name).define name).scopes = [] := by
      simp [Walk.declare, Walk.define, scopes]
    rw [same]
    exact .top
  | cons scope outer =>
    obtain ⟨scope', same, update⟩ := introduce_lookup scopes name
    rw [same]
    exact .inner fun x => by simp only [update x, List.mem_singleton]

theorem Defines.nil (scopes : List Scope) : Defines [] scopes scopes := by
  cases scopes with
  | nil => exact .top
  | cons scope outer => exact .inner fun x => (if_neg List.not_mem_nil).symm

theorem Defines.trans {names names' : List String} {a b c : List Scope} (h : Defines names a b)
    (k : Defines names' b c) : Defines (names ++ names') a c := by
  cases h with
  | top =>
    cases k
    exact .top
  | inner own =>
    cases k with
    | inner own' =>
      refine .inner fun x => ?_
      rw [own', own]
      by_cases mem : x ∈ names <;> by_cases mem' : x ∈ names' <;> simp [mem, mem']

theorem params_defines (w : Walk) (names : List Token) :
    Defines (names.map (·.lexeme)) w.scopes (params w names).scopes := by
  unfold params
  induction names generalizing w with
  | nil => exact .nil _
  | cons name names ih => exact (introduce_defines w name).trans (ih _)

/-- A statement gives its names to the innermost scope. -/
theorem stmt_defines (c : Context) (w : Walk) {s : Stmt} {inLoop : Bool} (formed : s.Formed inLoop) :
    Defines s.introduced w.scopes (stmt c w s).scopes := by
  rw [stmt_introduces c w s formed]
  exact params_defines w _

end Lox.Binding
