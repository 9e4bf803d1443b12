import Lox.Proofs.Run.Dispatch

/-!
# Trees of environments

An environment may have any number of others inside it, and all of them see its scope
(`Store.Tree`, `Store.Built.tree`). A name is read and changed by way of one environment, searched
outward or by counting hops. Either way a single binding changes, and it changes for those
environments that find the name there (`environments_lawful`).
-/

namespace Lox

namespace Store

/-! ### Trees -/

/-- What an environment binds in its own scope, the innermost. -/
def own? (s : Store) (env : Env) (name : String) : Option Value :=
  env.head?.bind (s.getHere? · name)

/-- Environments that form a tree, or several, by the one around each. -/
structure Tree (s : Store) (envs : List Env) : Prop where
  scope : ∀ env ∈ envs, ∃ f outer, env = f :: outer ∧ f < s.frames.size
  enclosing : ∀ f outer, f :: outer ∈ envs → outer ≠ [] → outer ∈ envs
  /-- Two that have the same scope for their own are one. -/
  apart : ∀ f outer outer', f :: outer ∈ envs → f :: outer' ∈ envs → outer = outer'

namespace Tree

variable {s : Store} {envs : List Env}

theorem of_size (h : s.Tree envs) {t : Store} (size : t.frames.size = s.frames.size) :
    t.Tree envs where
  scope env inside := by
    rw [size]
    exact h.scope env inside
  enclosing := h.enclosing
  apart := h.apart

theorem nil (s : Store) : s.Tree [] := ⟨nofun, nofun, nofun⟩

/-- A scope opened inside one of the environments, or inside none, is one more with a scope of its
own. -/
theorem child (h : s.Tree envs) {env : Env} (inside : env ≠ [] → env ∈ envs) :
    (s.child env).2.Tree ((s.child env).1 :: envs) := by
  have fresh : ∀ outer, s.frames.size :: outer ∉ envs := by
    intro outer among
    obtain ⟨f, outer, same, below⟩ := h.scope _ among
    rw [(List.cons.inj same).1] at below
    exact Nat.lt_irrefl f below
  constructor
  · intro other among
    rw [size_child]
    rcases List.mem_cons.1 among with rfl | among
    · exact ⟨s.frames.size, env, rfl, Nat.lt_succ_self _⟩
    · obtain ⟨f, outer, same, below⟩ := h.scope other among
      exact ⟨f, outer, same, Nat.lt_succ_of_lt below⟩
  · intro f outer among nonempty
    rcases List.mem_cons.1 among with same | among
    · obtain rfl := (List.cons.inj same).2
      exact List.mem_cons_of_mem _ (inside nonempty)
    · exact List.mem_cons_of_mem _ (h.enclosing f outer among nonempty)
  · intro f outer outer' among among'
    rcases List.mem_cons.1 among with same | among <;>
      rcases List.mem_cons.1 among' with same' | among'
    · exact (List.cons.inj same).2.trans (List.cons.inj same').2.symm
    · exact absurd ((List.cons.inj same).1 ▸ among') (fresh outer')
    · exact absurd ((List.cons.inj same').1 ▸ among) (fresh outer)
    · exact h.apart f outer outer' among among'

/-- What lies some hops out from one of the environments is another, if there is anything. -/
theorem drop (h : s.Tree envs) {env : Env} (inside : env ∈ envs) (distance : Nat)
    (nonempty : env.drop distance ≠ []) : env.drop distance ∈ envs := by
  induction distance generalizing env with
  | zero => exact inside
  | succ distance ih =>
    obtain ⟨f, outer, rfl, -⟩ := h.scope env inside
    have outside : outer ≠ [] := by
      rintro rfl
      exact nonempty List.drop_nil
    exact ih (h.enclosing f outer inside outside) nonempty

theorem head_ne (h : s.Tree envs) {f : FrameId} {outer : Env} (inside : f :: outer ∈ envs)
    {g : FrameId} {outer' : Env} (inside' : g :: outer' ∈ envs) (other : g :: outer' ≠ f :: outer) :
    g ≠ f := by
  rintro rfl
  exact other (congrArg _ (h.apart g outer' outer inside' inside))

end Tree

/-! ### The nearest binding -/

/-- The first environment, from one outward, that binds the name in its own scope. -/
inductive Binder (s : Store) (name : String) : Env → Env → Prop
  | own {f : FrameId} {outer : Env} (bound : (s.getHere? f name).isSome) :
    Binder s name (f :: outer) (f :: outer)
  | outward {f : FrameId} {outer target : Env} (free : s.getHere? f name = none)
    (further : Binder s name outer target) : Binder s name (f :: outer) target

section Binder

variable {s : Store} {name : String}

theorem Binder.unique {env target target' : Env} (h : s.Binder name env target)
    (h' : s.Binder name env target') : target = target' := by
  induction h with
  | own bound =>
    cases h' with
    | own => rfl
    | outward free => simp [free] at bound
  | outward free _ ih =>
    cases h' with
    | own bound => simp [free] at bound
    | outward _ further => exact ih further

theorem Binder.mem {envs : List Env} (tree : s.Tree envs) {env target : Env}
    (h : s.Binder name env target) (inside : env ∈ envs) : target ∈ envs := by
  induction h with
  | own => exact inside
  | outward _ further ih =>
    refine ih (tree.enclosing _ _ inside ?_)
    rintro rfl
    cases further

theorem Binder.get? {env target : Env} (h : s.Binder name env target) :
    s.get? env name = s.own? target name := by
  induction h with
  | @own f outer bound =>
    obtain ⟨v, here⟩ := Option.isSome_iff_exists.1 bound
    simp [Store.get?, own?, here]
  | outward free _ ih => simpa [Store.get?, free] using ih

theorem Binder.own_isSome {env target : Env} (h : s.Binder name env target) :
    (s.own? target name).isSome := by
  induction h with
  | own bound => exact bound
  | outward _ _ ih => exact ih

/-- A search for the scope that has a name ends at the nearest, or nothing binds the name. -/
theorem owner?_binder (s : Store) (env : Env) (name : String) :
    (∃ f outer, s.owner? env name = some f ∧ s.Binder name env (f :: outer)) ∨
      s.owner? env name = none ∧ s.get? env name = none ∧ ∀ target, ¬ s.Binder name env target := by
  induction env with
  | nil => exact .inr ⟨rfl, rfl, nofun⟩
  | cons g env ih =>
    unfold owner? Store.get? at ih ⊢
    rw [List.find?_cons, List.findSome?_cons]
    cases here : s.getHere? g name with
    | some v =>
      refine .inl ⟨g, env, ?_, .own (by rw [here]; rfl)⟩
      simp [binds, here]
    | none =>
      have free : s.binds name g = false := by simp [binds, here]
      rw [free]
      rcases ih with ⟨f, outer, owner, binder⟩ | ⟨none, absent, unbound⟩
      · exact .inl ⟨f, outer, owner, .outward here binder⟩
      · refine .inr ⟨none, absent, fun target binder => ?_⟩
        cases binder with
        | own bound => simp [here] at bound
        | outward _ further => exact unbound target further

theorem get?_eq_some_iff {env : Env} {v : Value} :
    s.get? env name = some v ↔ ∃ target, s.Binder name env target ∧ s.own? target name = some v := by
  constructor
  · intro found
    rcases s.owner?_binder env name with ⟨f, outer, -, binder⟩ | ⟨-, absent, -⟩
    · exact ⟨_, binder, binder.get?.symm.trans found⟩
    · simp [absent] at found
  · rintro ⟨target, binder, here⟩
    exact binder.get?.trans here

theorem getAt?_eq_own? (s : Store) (env : Env) (distance : Nat) (name : String) :
    s.getAt? env distance name = s.own? (env.drop distance) name := by
  unfold getAt? own?
  rw [List.head?_drop]

end Binder

/-! ### Changes -/

/-- A store in which the own scope of one environment, `target`, binds a name to a value, and that
is otherwise the same. -/
structure Bound (s : Store) (envs : List Env) (target : Env) (name : String) (v : Value)
    (t : Store) : Prop where
  own : t.own? target name = some v
  others : ∀ env ∈ envs, ∀ x, env ≠ target ∨ x ≠ name → t.own? env x = s.own? env x
  tree : t.Tree envs
  objects : t.objects = s.objects

/-- A store in which one binding was changed that was there before. -/
structure Assigned (s : Store) (envs : List Env) (target : Env) (name : String) (v : Value)
    (t : Store) : Prop extends Bound s envs target name v t where
  binder_iff : ∀ x env b, t.Binder x env b ↔ s.Binder x env b
  seen : ∀ env, s.Binder name env target → t.get? env name = some v
  unseen : ∀ env ∈ envs, ∀ x, x ≠ name ∨ ¬ s.Binder name env target → t.get? env x = s.get? env x
  /-- Who did not see the value before sees it now just if the nearest binding is the changed one. -/
  sees_iff : ∀ env ∈ envs, s.get? env name ≠ some v →
    (t.get? env name = some v ↔ s.Binder name env target)

section Changes

variable {s : Store} {envs : List Env}

theorem put_bound (tree : s.Tree envs) {f : FrameId} {outer : Env} (inside : f :: outer ∈ envs)
    (name : String) (v : Value) : s.Bound envs (f :: outer) name v (s.put f name v) := by
  have below : f < s.frames.size := by
    obtain ⟨g, rest, same, below⟩ := tree.scope _ inside
    rwa [(List.cons.inj same).1]
  have here := fun g x => s.getHere?_put f g name x v below
  refine ⟨?_, ?_, tree.of_size (size_put s f name v), rfl⟩
  · show (s.put f name v).getHere? f name = some v
    rw [here, if_pos ⟨rfl, rfl⟩]
  · intro env among x differs
    obtain ⟨g, rest, rfl, -⟩ := tree.scope env among
    show (s.put f name v).getHere? g x = s.getHere? g x
    rw [here, if_neg]
    rintro ⟨rfl, rfl⟩
    exact differs.elim (fun other => tree.head_ne inside among other rfl) (fun other => other rfl)

/-- The nearest bindings are the same in two stores that bind the same names in every scope. -/
theorem Binder.of_binds {t : Store} {name : String}
    (same : ∀ g, (t.getHere? g name).isSome = (s.getHere? g name).isSome) {env target : Env}
    (h : s.Binder name env target) : t.Binder name env target := by
  induction h with
  | own bound => exact .own ((same _).trans bound)
  | @outward f _ _ free _ ih =>
    have here := same f
    rw [free] at here
    exact .outward (Option.not_isSome_iff_eq_none.1 (Bool.eq_false_iff.1 here)) ih

theorem put_isSome {f : FrameId} {name : String} (bound : (s.getHere? f name).isSome) (v : Value)
    (g : FrameId) (x : String) :
    ((s.put f name v).getHere? g x).isSome = (s.getHere? g x).isSome := by
  obtain ⟨old, found⟩ := Option.isSome_iff_exists.1 bound
  rw [s.getHere?_put f g name x v (lt_size_of_getHere? found)]
  split
  · next both =>
    obtain ⟨rfl, rfl⟩ := both
    exact bound.symm
  · rfl

/-- Reads after a change: one binding differs, and every name has its nearest binding where it had
it. -/
theorem Bound.assigned {t : Store} {target : Env} {name : String} {v : Value}
    (h : s.Bound envs target name v t) (tree : s.Tree envs)
    (binder_iff : ∀ x env b, t.Binder x env b ↔ s.Binder x env b) :
    s.Assigned envs target name v t := by
  have seen : ∀ env, s.Binder name env target → t.get? env name = some v := by
    intro env binder
    rw [((binder_iff name env target).2 binder).get?]
    exact h.own
  have unseen : ∀ env ∈ envs, ∀ x, x ≠ name ∨ ¬ s.Binder name env target →
      t.get? env x = s.get? env x := by
    intro env inside x differs
    refine Option.ext fun w => ?_
    rw [get?_eq_some_iff, get?_eq_some_iff]
    refine exists_congr fun b => ?_
    rw [binder_iff]
    refine and_congr_right fun binder => ?_
    rw [h.others b (binder.mem tree inside) x]
    by_cases other : x = name
    · subst other
      refine .inl ?_
      rintro rfl
      exact (differs.resolve_left (absurd rfl)) binder
    · exact .inr other
  refine ⟨h, binder_iff, seen, unseen, fun env inside before => ⟨fun sees => ?_, seen env⟩⟩
  refine Classical.not_not.1 fun elsewhere => before ?_
  exact (unseen env inside name (.inr elsewhere)).symm.trans sees

theorem put_assigned (tree : s.Tree envs) {f : FrameId} {outer : Env} (inside : f :: outer ∈ envs)
    {name : String} (bound : (s.getHere? f name).isSome) (v : Value) :
    s.Assigned envs (f :: outer) name v (s.put f name v) := by
  refine (put_bound tree inside name v).assigned tree fun x env b => ?_
  have same := fun g => put_isSome bound v g x
  exact ⟨Binder.of_binds fun g => (same g).symm, Binder.of_binds same⟩

/-! ### Operations -/

theorem assign?_isSome (s : Store) (env : Env) (name : String) (v : Value) :
    (s.assign? env name v).isSome = (s.get? env name).isSome := by
  unfold assign?
  rw [Option.isSome_map]
  rcases s.owner?_binder env name with ⟨f, outer, owner, binder⟩ | ⟨none, absent, -⟩
  · rw [owner, binder.get?, binder.own_isSome]
    rfl
  · rw [none, absent]
    rfl

theorem assign?_assigned (tree : s.Tree envs) {env : Env} (inside : env ∈ envs) {name : String}
    {v : Value} {t : Store} (assigned : s.assign? env name v = some t) :
    ∃ target ∈ envs, s.Binder name env target ∧ s.Assigned envs target name v t := by
  obtain ⟨f, owner, rfl⟩ := Option.map_eq_some_iff.1 assigned
  rcases s.owner?_binder env name with ⟨g, outer, same, binder⟩ | ⟨none, -, -⟩
  · obtain rfl := Option.some.inj (owner.symm.trans same)
    have member := binder.mem tree inside
    exact ⟨_, member, binder, put_assigned tree member binder.own_isSome v⟩
  · simp [owner] at none

theorem assignAt?_isSome (s : Store) (env : Env) (distance : Nat) (name : String) (v : Value) :
    (s.assignAt? env distance name v).isSome = (s.getAt? env distance name).isSome := by
  unfold assignAt? ownerAt? getAt?
  rw [Option.isSome_map]
  cases env[distance]? with
  | none => rfl
  | some f =>
    rw [Option.filter_some, Option.bind_some]
    unfold binds
    cases s.getHere? f name <;> rfl

theorem assignAt?_assigned (tree : s.Tree envs) {env : Env} (inside : env ∈ envs) {distance : Nat}
    {name : String} {v : Value} {t : Store} (assigned : s.assignAt? env distance name v = some t) :
    env.drop distance ∈ envs ∧ s.Assigned envs (env.drop distance) name v t := by
  obtain ⟨f, owner, rfl⟩ := Option.map_eq_some_iff.1 assigned
  obtain ⟨hop, bound⟩ := Option.filter_eq_some_iff.1 owner
  obtain ⟨within, rfl⟩ := List.getElem?_eq_some_iff.1 hop
  have scope : env.drop distance = env[distance] :: env.drop (distance + 1) :=
    List.drop_eq_getElem_cons within
  have member : env.drop distance ∈ envs :=
    tree.drop inside distance (scope ▸ List.cons_ne_nil _ _)
  rw [scope] at member ⊢
  exact ⟨member, put_assigned tree member bound v⟩

theorem define_bound (tree : s.Tree envs) {env : Env} (inside : env ∈ envs) (name : String)
    (v : Value) : s.Bound envs env name v (s.define env name v) := by
  obtain ⟨f, outer, rfl, -⟩ := tree.scope env inside
  exact put_bound tree inside name v

end Changes

/-- A store with its environments, as they come about by any operations in a row. -/
inductive Built : Store → List Env → Prop
  | empty : Built empty []
  | child {s : Store} {envs : List Env} {env : Env} (before : Built s envs)
    (inside : env ≠ [] → env ∈ envs) : Built (s.child env).2 ((s.child env).1 :: envs)
  | define {s : Store} {envs : List Env} {env : Env} (name : String) (v : Value)
    (before : Built s envs) (inside : env ∈ envs) : Built (s.define env name v) envs
  | assign {s t : Store} {envs : List Env} {env : Env} {name : String} {v : Value}
    (before : Built s envs) (inside : env ∈ envs) (assigned : s.assign? env name v = some t) :
    Built t envs
  | assignAt {s t : Store} {envs : List Env} {env : Env} {distance : Nat} {name : String} {v : Value}
    (before : Built s envs) (inside : env ∈ envs)
    (assigned : s.assignAt? env distance name v = some t) : Built t envs

/-- Environments are trees whatever was done to them. -/
theorem Built.tree {s : Store} {envs : List Env} (h : Built s envs) : s.Tree envs := by
  induction h with
  | empty => exact .nil _
  | child _ inside ih => exact ih.child inside
  | define name v _ inside ih => exact (define_bound ih inside name v).tree
  | assign _ inside assigned ih =>
    obtain ⟨_, -, -, after⟩ := assign?_assigned ih inside assigned
    exact after.tree
  | assignAt _ inside assigned ih => exact (assignAt?_assigned ih inside assigned).2.tree

end Store

/-! ### Operations of a machine -/

/-- How an operation on names ends: with its result, or with an error of the name and the machine as
it was. -/
def Machine.orUndefined {α : Type} (m : Machine) (name : Token) :
    Option (α × Machine) → EStateM.Result Halt Machine α
  | some (a, n) => .ok a n
  | none => .error (.error (.program name.line (.undefinedVariable name.lexeme))) m

/-- The store after an assignment at a node: where a distance is recorded so many hops out, otherwise
among the globals. -/
def Machine.assigned? (m : Machine) (id : NodeId) (name : String) (v : Value) : Option Store :=
  match m.distances[id]? with
  | some distance => m.store.assignAt? m.env distance name v
  | none => m.store.assign? globalEnv name v

section Machine

variable (m : Machine) (id : NodeId) (name : Token)

theorem lookUp_orUndefined :
    lookUp id name m = m.orUndefined name ((m.valueAt? id name.lexeme).map (·, m)) := by
  rw [lookUp_run]
  cases m.valueAt? id name.lexeme <;> rfl

theorem assignName_orUndefined (v : Value) :
    assignName id name v m =
      m.orUndefined name ((m.assigned? id name.lexeme v).map fun store => ((), { m with store })) := by
  rw [assignName_run]
  unfold Machine.ownerOf? Machine.assigned? Store.assignAt? Store.assign?
  cases m.distances[id]? with
  | some distance =>
    dsimp only
    cases m.store.ownerAt? m.env distance name.lexeme <;> rfl
  | none =>
    dsimp only
    cases m.store.owner? globalEnv name.lexeme <;> rfl

theorem assignClass_orUndefined (c : Class) :
    assignClass name c m =
      m.orUndefined name ((m.store.assign? m.env name.lexeme (.callable (.class c))).map
        fun store => ((), { m with store })) := by
  rw [assignClass_run]
  unfold Store.assign?
  cases m.store.owner? m.env name.lexeme <;> rfl

end Machine

/-! ### Laws -/

/-- The laws of names in a tree of environments. A read finds the nearest binding. An assignment is
possible where a read is, and changes the nearest binding and no other; one by hops does so for the
scope so many hops out, and a definition for the innermost. No operation that fails changes
anything. -/
theorem environments_lawful {s : Store} {envs : List Env} (tree : s.Tree envs) {env : Env}
    (inside : env ∈ envs) (name : String) (v : Value) :
    (∀ w, s.get? env name = some w ↔
      ∃ target, s.Binder name env target ∧ s.own? target name = some w) ∧
    ((s.assign? env name v).isSome = (s.get? env name).isSome ∧
      ∀ t, s.assign? env name v = some t →
        ∃ target ∈ envs, s.Binder name env target ∧ s.Assigned envs target name v t) ∧
    (∀ distance, s.getAt? env distance name = s.own? (env.drop distance) name ∧
      (s.assignAt? env distance name v).isSome = (s.getAt? env distance name).isSome ∧
      ∀ t, s.assignAt? env distance name v = some t →
        env.drop distance ∈ envs ∧ s.Assigned envs (env.drop distance) name v t) ∧
    s.Bound envs env name v (s.define env name v) ∧
    ∀ (m : Machine) (id : NodeId) (token : Token) (c : Class),
      lookUp id token m =
        m.orUndefined token ((m.valueAt? id token.lexeme).map (·, m)) ∧
      assignName id token v m =
        m.orUndefined token ((m.assigned? id token.lexeme v).map
          fun store => ((), { m with store })) ∧
      assignClass token c m =
        m.orUndefined token ((m.store.assign? m.env token.lexeme (.callable (.class c))).map
          fun store => ((), { m with store })) := by
  refine ⟨fun _ => Store.get?_eq_some_iff,
    ⟨s.assign?_isSome env name v, fun _ assigned => Store.assign?_assigned tree inside assigned⟩,
    fun distance => ⟨s.getAt?_eq_own? env distance name, s.assignAt?_isSome env distance name v,
      fun _ assigned => Store.assignAt?_assigned tree inside assigned⟩,
    Store.define_bound tree inside name v, fun m id token c => ?_⟩
  exact ⟨lookUp_orUndefined m id token, assignName_orUndefined m id token v,
    assignClass_orUndefined m token c⟩

namespace Store

/-- Two scopes inside one that binds a global name anew, and a third beside it. -/
def shadowing : Store :=
  let globals := (empty.child []).2.define [0] "a" .nil
  let outer := (globals.child [0]).2.define [1, 0] "a" (.bool false)
  (((outer.child [1, 0]).2.child [1, 0]).2.child [0]).2

theorem shadowing_built : Built shadowing [[4, 0], [3, 1, 0], [2, 1, 0], [1, 0], [0]] := by
  have globals : Built ((empty.child []).2.define [0] "a" .nil) [[0]] :=
    .define "a" .nil (.child .empty (absurd rfl)) (List.mem_singleton_self _)
  have inner : [1, 0] ∈ [[1, 0], [0]] := by decide
  have outer := Built.define "a" (.bool false)
    (globals.child fun _ => List.mem_singleton_self _) inner
  have again : [1, 0] ∈ [[2, 1, 0], [1, 0], [0]] := by decide
  have beside : [0] ∈ [[3, 1, 0], [2, 1, 0], [1, 0], [0]] := by decide
  exact ((outer.child fun _ => inner).child fun _ => again).child fun _ => beside

end Store

/-- The scope beside the other two does not see what was assigned by way of one of them. -/
theorem environments_lawful_shadowing :
    Store.shadowing.Tree [[4, 0], [3, 1, 0], [2, 1, 0], [1, 0], [0]] ∧
    ∃ t, Store.shadowing.assign? [2, 1, 0] "a" (.bool true) = some t ∧
      t.get? [3, 1, 0] "a" = some (.bool true) ∧ t.get? [4, 0] "a" = some .nil := by
  have tree := Store.shadowing_built.tree
  have inside : [2, 1, 0] ∈ [[4, 0], [3, 1, 0], [2, 1, 0], [1, 0], [0]] := by decide
  obtain ⟨-, ⟨possible, changes⟩, -⟩ := environments_lawful tree inside "a" (.bool true)
  obtain ⟨t, assigned⟩ := Option.isSome_iff_exists.1 (possible.trans (by decide +kernel))
  obtain ⟨target, -, nearest, after⟩ := changes t assigned
  have outer : Store.shadowing.Binder "a" [1, 0] [1, 0] := .own (by decide +kernel)
  have globals : Store.shadowing.Binder "a" [4, 0] [0] := .outward rfl (.own (by decide +kernel))
  obtain rfl := nearest.unique (.outward rfl outer)
  refine ⟨tree, t, assigned, after.seen _ (.outward rfl outer), ?_⟩
  rw [after.unseen [4, 0] (by decide) "a" (.inr fun same => absurd (same.unique globals) (by decide))]
  rfl

end Lox
