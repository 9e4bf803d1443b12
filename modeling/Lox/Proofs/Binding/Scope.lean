import Lox.Proofs.Binding.Walk

/-!
# Scopes of the walk

How a declaration changes the scopes, and what is true of the scopes wherever a statement stands in
a program without faults: all declared names are defined (`Settled`), and in a class with a
superclass the scope of `super` lies just outside the one of `this` (`Placed`).
-/

namespace Lox.Binding

theorem distance_cons (s : Scope) (scopes : List Scope) (x : String) :
    distance (s :: scopes) x =
      if (s.lookup x).isSome then some 0 else (distance scopes x).map (· + 1) := by
  unfold distance
  rw [List.findIdx?_cons]

/-! ### Declarations -/

/-- The scope says `b` of one name and the same as before of all others. -/
def Updates (s : Scope) (name : String) (b : Bool) (s' : Scope) : Prop :=
  ∀ x, s'.lookup x = if x = name then some b else s.lookup x

theorem updates_cons (s : Scope) (name : String) (b : Bool) :
    Updates s name b ((name, b) :: s) := by
  intro x
  rw [List.lookup_cons]
  by_cases same : x = name
  · simp [same]
  · rw [beq_false_of_ne same, if_neg same]

theorem updates_twice {s s' s'' : Scope} {name : String} {b b' : Bool} (h : Updates s name b s')
    (k : Updates s' name b' s'') : Updates s name b' s'' := by
  intro x
  rw [k x, h x]
  by_cases same : x = name
  · rw [if_pos same, if_pos same]
  · rw [if_neg same, if_neg same, if_neg same]

/-- Only the updated name may be found closer than before. -/
theorem distance_updates {s s' : Scope} {name : String} {b : Bool} (h : Updates s name b s')
    (scopes : List Scope) (x : String) :
    distance (s' :: scopes) x = if x = name then some 0 else distance (s :: scopes) x := by
  rw [distance_cons, distance_cons, h x]
  by_cases same : x = name
  · rw [if_pos same, if_pos same, Option.isSome_some, if_pos rfl]
  · rw [if_neg same, if_neg same]

/-- A name is declared and then defined: in the innermost scope, where it is new, or nowhere at top
level. -/
inductive Declares (name : Token) : List Scope → List Scope → List Scope → Prop
  | top : Declares name [] [] []
  | inner {s s' s'' : Scope} {outer : List Scope} (new : s.lookup name.lexeme = none)
      (first : Updates s name.lexeme false s') (second : Updates s' name.lexeme true s'') :
      Declares name (s :: outer) (s' :: outer) (s'' :: outer)

theorem declares_of_clean {w w' : Walk} {name : Token} (clean : (w.declare name).faults = [])
    (same : w'.scopes = (w.declare name).scopes) :
    Declares name w.scopes (w.declare name).scopes (w'.define name).scopes := by
  unfold Walk.define
  rw [same]
  unfold Walk.declare at clean ⊢
  cases scopes : w.scopes with
  | nil =>
    simp only [scopes]
    rw [same]
    unfold Walk.declare
    simp only [scopes]
    exact .top
  | cons s outer =>
    rw [scopes] at clean
    by_cases declared : (s.lookup name.lexeme).isSome
    · simp [declared, Walk.fault] at clean
    · simp only [if_neg declared]
      exact .inner (Option.not_isSome_iff_eq_none.1 declared) (updates_cons s name.lexeme false)
        (updates_cons _ name.lexeme true)

/-! ### Settled scopes -/

/-- Every declared name is defined. -/
def Settled (scopes : List Scope) : Prop := ∀ s ∈ scopes, ∀ x, s.lookup x ≠ some false

theorem Settled.nil : Settled [] := fun _ mem => absurd mem List.not_mem_nil

theorem Settled.cons {s : Scope} {scopes : List Scope} (h : Settled scopes)
    (head : ∀ x, s.lookup x ≠ some false) : Settled (s :: scopes) := by
  intro t mem
  rcases List.mem_cons.1 mem with rfl | outer
  · exact head
  · exact h t outer

theorem Settled.tail {s : Scope} {scopes : List Scope} (h : Settled (s :: scopes)) :
    Settled scopes :=
  fun t mem => h t (List.mem_cons_of_mem _ mem)

theorem Settled.inner {scopes : List Scope} (h : Settled scopes) : Settled ([] :: scopes) :=
  h.cons fun _ => by simp

theorem Settled.update {s s' : Scope} {name : String} {scopes : List Scope}
    (h : Settled (s :: scopes)) (update : Updates s name true s') : Settled (s' :: scopes) := by
  apply h.tail.cons
  intro x
  rw [update x]
  by_cases same : x = name
  · rw [if_pos same]
    simp
  · rw [if_neg same]
    exact h s List.mem_cons_self x

/-- The walk is in an expression: only the innermost scope may have a name that is not defined. -/
structure Ready (scopes : List Scope) : Prop where
  outer : Settled scopes.tail
  this : scopes.head?.bind (·.lookup "this") ≠ some false
  super : scopes.head?.bind (·.lookup "super") ≠ some false

theorem Settled.ready {scopes : List Scope} (h : Settled scopes) : Ready scopes := by
  cases scopes with
  | nil => exact ⟨Settled.nil, by simp, by simp⟩
  | cons s scopes =>
    exact ⟨h.tail, h s List.mem_cons_self "this", h s List.mem_cons_self "super"⟩

theorem Settled.declare {s s' : Scope} {name : Token} {scopes : List Scope}
    (h : Settled (s :: scopes)) (update : Updates s name.lexeme false s')
    (declarable : name.Declarable) : Ready (s' :: scopes) := by
  refine ⟨h.tail, ?_, ?_⟩
  · show s'.lookup "this" ≠ some false
    rw [update, if_neg (Ne.symm declarable.1)]
    exact h s List.mem_cons_self "this"
  · show s'.lookup "super" ≠ some false
    rw [update, if_neg (Ne.symm declarable.2)]
    exact h s List.mem_cons_self "super"

/-- A name that is found in a scope is declared there. -/
theorem distance_some {scopes : List Scope} {x : String} {d : Nat}
    (found : distance scopes x = some d) : ∃ s, scopes[d]? = some s ∧ (s.lookup x).isSome := by
  obtain ⟨below, here, -⟩ := List.findIdx?_eq_some_iff_getElem.1 found
  exact ⟨scopes[d], List.getElem?_eq_getElem below, here⟩

/-! ### The scopes of `this` and `super` -/

/-- Inside a class with a superclass the scope of `super` lies just outside the one of `this`. -/
def Placed (c : Context) (scopes : List Scope) : Prop :=
  c.family = .derived →
    ∃ d, distance scopes "this" = some d ∧ distance scopes "super" = some (d + 1)

theorem Placed.inner {c : Context} {scopes : List Scope} (h : Placed c scopes) :
    Placed c ([] :: scopes) := by
  intro derived
  obtain ⟨d, this, super⟩ := h derived
  exact ⟨d + 1, by simp [distance_cons, this], by simp [distance_cons, super]⟩

theorem Placed.update {c : Context} {s s' : Scope} {name : Token} {b : Bool} {scopes : List Scope}
    (h : Placed c (s :: scopes)) (update : Updates s name.lexeme b s')
    (declarable : name.Declarable) : Placed c (s' :: scopes) := by
  intro derived
  obtain ⟨d, this, super⟩ := h derived
  refine ⟨d, ?_, ?_⟩
  · rw [distance_updates update, if_neg (Ne.symm declarable.1), this]
  · rw [distance_updates update, if_neg (Ne.symm declarable.2), super]

theorem placed_class (c : Context) (scopes : List Scope) :
    Placed c (thisScope :: superScope :: scopes) := by
  intro _
  exact ⟨0, rfl, rfl⟩

theorem settled_this {scopes : List Scope} (h : Settled scopes) : Settled (thisScope :: scopes) :=
  h.inner.update (updates_cons [] "this" true)

theorem settled_super {scopes : List Scope} (h : Settled scopes) :
    Settled (superScope :: scopes) :=
  h.inner.update (updates_cons [] "super" true)

end Lox.Binding
