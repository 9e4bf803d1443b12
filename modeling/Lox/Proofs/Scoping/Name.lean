import Lox.Proofs.Run.Frames
import Lox.Proofs.Scoping.Step

/-!
# Names in both runs

A node that names a binding is reached where the walk visited it (`Here.reaches`), and then both
runs find the same value for it, change the same one, or find none.
-/

namespace Lox.Scoping

open Binding (Scope Site Origin distance Updates Ready Settled distance_some distance_cons)
open Lexical (Names CellId Exec)
open Watched (Watch)

/-- A run in this environment is at the site, where the map knows what the scopes declare. -/
structure Reaches (W : World) (site : Site) (names : Names) (env : Env) : Prop where
  known : site ∈ W.sites
  parity : ∀ w s, Related W w s → w.machine.env = env →
    Parity w.log w.machine site ∧ Resolved w.machine site
  absent : distance site.scopes site.name = none → W.find? names site.name = none
  present : ∀ d, distance site.scopes site.name = some d →
    ∃ c f, W.find? names site.name = some c ∧ env[d]? = some f ∧ W.cells[c]? = some (f, site.name)

section Reaching

variable {W : World} {scopes : List Scope} {origins : List Origin} {names : Names} {env : Env}

/-- A declared name is bound, unless it is in its own initializer. -/
theorem Here.bound_of (h : Here W scopes origins names env) (ready : Ready scopes) {x : String}
    {d : Nat} (found : distance scopes x = some d)
    (defined : scopes.head?.bind (·.lookup x) ≠ some false) :
    ∃ f, env[d]? = some f ∧ f ≠ globalFrame ∧ (f, x) ∈ W.bound := by
  obtain ⟨s, scope, declared⟩ := distance_some found
  have below : d < scopes.length := (List.getElem?_eq_some_iff.1 scope).1
  obtain ⟨f, frame⟩ : ∃ f, env[d]? = some f := by
    refine ⟨_, List.getElem?_eq_getElem ?_⟩
    rw [h.depth]
    omega
  obtain ⟨b, value⟩ := Option.isSome_iff_exists.1 declared
  have isTrue : b = true := by
    cases b with
    | true => rfl
    | false =>
      cases d with
      | zero =>
        rw [List.head?_eq_getElem?, scope] at defined
        exact absurd value defined
      | succ d =>
        -- Only the innermost scope may have a name that is not defined.
        refine absurd value (ready.outer s ?_ x)
        rw [← List.drop_one]
        exact List.mem_of_getElem? ((List.getElem?_drop (i := 1)).trans (Nat.add_comm 1 d ▸ scope))
  subst isTrue
  exact ⟨f, frame, h.locals d f below frame, h.bound d s f x scope frame value⟩

/-- A name in its own initializer is declared in the innermost scope and not bound. -/
theorem Here.unbound_of (h : Here W scopes origins names env) {x : String}
    (pending : scopes.head?.bind (·.lookup x) = some false) :
    distance scopes x = some 0 ∧ ∃ f, env[0]? = some f ∧ f ≠ globalFrame ∧ (f, x) ∉ W.bound := by
  cases scopes with
  | nil => exact absurd pending (by simp)
  | cons s outer =>
    have value : s.lookup x = some false := pending
    cases env with
    | nil => exact absurd h.depth (by simp)
    | cons f env =>
      refine ⟨?_, f, rfl, h.head_local.2, fun mem => ?_⟩
      · rw [distance_cons, value]
        rfl
      · have defined := (h.exact s f x rfl rfl).2 mem
        rw [value] at defined
        exact absurd defined (by simp)

theorem Related.binds_iff {w : Watched.State} {s : Lexical.State} (h : Related W w s) {d : Nat}
    {f : FrameId} {x : String} (frame : w.machine.env[d]? = some f) :
    (w.machine.store.getAt? w.machine.env d x).isSome ↔ (f, x) ∈ W.bound := by
  unfold Store.getAt?
  rw [frame, h.frames.bound f x]
  rfl

/-- The environment realizes scopes that differ from those of the site at most in a class whose
superclass clause the site is in. -/
theorem Here.parity (h : Here W scopes origins names env) {site : Site} (known : site ∈ W.sites)
    (length : site.scopes.length = scopes.length) (same : site.origins = origins)
    (held : ∀ (i : Nat) s x, site.scopes[i]? = some s → s.lookup x = some true →
      (∃ s₀, scopes[i]? = some s₀ ∧ s₀.lookup x = some true) ∨ i = 0 ∧ site.own = some x)
    {w : Watched.State} {s : Lexical.State} (related : Related W w s)
    (back : w.machine.env = env) : Parity w.log w.machine site where
  depth := by rw [back, length, h.depth]
  root := by rw [back, length, h.root]
  locals i f below frame := h.locals i f (length ▸ below) (back ▸ frame)
  origins := by rw [same, length, h.origins_length]
  instances i o mine := by
    rw [back, ← mem_openedOf, ← related.logged.opened]
    exact h.opened i o (same ▸ mine)
  bound i s f x scope frame defined := by
    rw [back] at frame
    rcases held i s x scope defined with ⟨s₀, scope₀, defined₀⟩ | own
    · exact .inl ((related.frames.bound f x).1 (h.bound i s₀ f x scope₀ frame defined₀))
    · exact .inr own
  entry := related.logged.filed.entry site known

/-- A node that the walk visited in just the scopes that the environment realizes. -/
theorem Here.reaches (h : Here W scopes origins names env) (ready : Ready scopes) {id : NodeId}
    {name : String} {writes : Bool} {own : Option String}
    (known : ⟨id, name, writes, scopes, origins, own⟩ ∈ W.sites)
    (reads : scopes.head?.bind (·.lookup name) = some false → writes = true)
    (inside : name = "super" → ∀ d, distance scopes "super" = some d →
      distance scopes "this" = some (d - 1)) :
    Reaches W ⟨id, name, writes, scopes, origins, own⟩ names env where
  known := known
  parity w s related back := by
    refine ⟨h.parity known rfl rfl (fun i s x scope defined => ?_) related back,
      fun d found => ?_, fun d found isSuper => ?_⟩
    · exact .inl ⟨s, scope, defined⟩
    · rw [← Option.not_isSome_iff_eq_none]
      by_cases pending : scopes.head?.bind (·.lookup name) = some false
      · obtain ⟨nearest, f, frame, isLocal, unbound⟩ := h.unbound_of pending
        obtain rfl := Option.some.inj (nearest.symm.trans found)
        have frame : w.machine.env[0]? = some f := by rw [back, frame]
        rw [related.binds_iff frame]
        exact ⟨fun _ => ⟨reads pending, pending⟩, fun _ => unbound⟩
      · obtain ⟨f, frame, isLocal, bound⟩ := h.bound_of ready found pending
        have frame : w.machine.env[d]? = some f := by rw [back, frame]
        rw [related.binds_iff frame]
        exact ⟨fun unbound => absurd bound unbound, fun both => absurd both.2 pending⟩
    · have isSuper : name = "super" := isSuper
      subst isSuper
      obtain ⟨f, frame, isLocal, bound⟩ := h.bound_of ready (inside rfl d found) ready.this
      obtain ⟨v, value⟩ := Option.isSome_iff_exists.1 ((related.frames.bound f "this").1 bound)
      obtain ⟨c, o, rfl⟩ := related.frames.this f v isLocal value
      refine ⟨ready.super, c, o, ?_⟩
      unfold Store.getAt?
      rw [back, frame]
      exact value
  absent := h.absent name
  present := h.present name

/-- A superclass is looked up before its class is declared, although the walk declares the class
first. The two do not have the same name. -/
theorem Here.reaches_superclass {s s' : Scope} {outer : List Scope} {own : String}
    (h : Here W (s :: outer) origins names env) (settled : Settled (s :: outer))
    (update : Updates s own true s') {id : NodeId} {name : String} (other : name ≠ own)
    (usual : name ≠ "super")
    (known : ⟨id, name, false, s' :: outer, origins, some own⟩ ∈ W.sites) :
    Reaches W ⟨id, name, false, s' :: outer, origins, some own⟩ names env := by
  have place : distance (s' :: outer) name = distance (s :: outer) name := by
    rw [Binding.distance_updates update, if_neg other]
  have defined : s.lookup name ≠ some false := settled s List.mem_cons_self name
  refine ⟨known, fun w t related back =>
      ⟨?_, fun d found => ?_, fun _ _ isSuper => absurd isSuper usual⟩,
    fun none => h.absent name (place ▸ none), fun d found => h.present name d (place ▸ found)⟩
  · refine h.parity known rfl rfl (fun i t x scope defined => ?_) related back
    cases i with
    | zero =>
      obtain rfl := Option.some.inj scope
      rw [update x] at defined
      by_cases same : x = own
      · exact .inr ⟨rfl, congrArg some same.symm⟩
      · rw [if_neg same] at defined
        exact .inl ⟨s, rfl, defined⟩
    | succ i => exact .inl ⟨t, scope, defined⟩
  · obtain ⟨f, frame, isLocal, bound⟩ := h.bound_of settled.ready (place ▸ found) defined
    have frame : w.machine.env[d]? = some f := by rw [back, frame]
    rw [← Option.not_isSome_iff_eq_none, related.binds_iff frame]
    exact ⟨fun unbound => absurd bound unbound, fun both => absurd both.1 (by simp)⟩

end Reaching

/-! ### Values -/

section Values

variable {head : Option FrameId} {W : World} {env : Env} {names : Names}

theorem get?_global (store : Store) (x : String) :
    store.get? globalEnv x = store.getHere? globalFrame x := by
  unfold Store.get? globalEnv
  rw [List.findSome?_cons]
  cases store.getHere? globalFrame x <;> rfl

theorem owner?_global (store : Store) (x : String) :
    store.owner? globalEnv x = if store.binds x globalFrame then some globalFrame else none := by
  unfold Store.owner? globalEnv
  rw [List.find?_cons]
  cases store.binds x globalFrame <;> rfl

theorem globalName_same {w : Watched.State} {s : Lexical.State} (h : Related W w s) (x : String) :
    Option.Rel (SameValue W) (w.machine.store.get? globalEnv x)
      (s.machine.store.get? globalEnv x) := by
  rw [get?_global, get?_global]
  exact h.frames.globals x

theorem localName_same {w : Watched.State} {s : Lexical.State} (h : Related W w s) {d : Nat}
    {c : CellId} {f : FrameId} {x : String} (found : W.find? names x = some c)
    (frame : env[d]? = some f) (cell : W.cells[c]? = some (f, x)) :
    Option.Rel (SameValue W) (w.machine.store.getAt? env d x) (s.get? names x) := by
  unfold Store.getAt? Lexical.State.get?
  rw [frame, h.frames.find?, found]
  exact h.frames.valueOf? cell

theorem Reaches.value_same {site : Site} (h : Reaches W site names env) {w : Watched.State}
    {s : Lexical.State} (related : Related W w s) (back : w.machine.env = env) :
    Option.Rel (SameValue W) (w.machine.valueAt? site.id site.name) (s.get? names site.name) := by
  unfold Machine.valueAt?
  rw [related.logged.filed.entry site h.known]
  cases place : distance site.scopes site.name with
  | some d =>
    obtain ⟨c, f, found, frame, cell⟩ := h.present d place
    rw [back]
    exact localName_same related found frame cell
  | none =>
    unfold Lexical.State.get?
    rw [related.frames.find?, h.absent place]
    exact globalName_same related site.name

theorem reach_sim {site : Site} (h : Reaches W site names env) :
    Sim head W env (Watched.reach site.id site.name) (Pure.pure ()) fun W' _ _ => W' = W := by
  intro w s related back
  obtain ⟨parity, resolved⟩ := h.parity w s related back
  exact .ok (Grow.refl head W)
    ⟨related.shared, related.frames, related.logged.reach h.known parity resolved⟩ back rfl

theorem lookUp_sim {site : Site} (h : Reaches W site names env) {name : Token}
    (spelled : name.lexeme = site.name) :
    Sim head W env (Watched.lookUp site.id name) (Lexical.lookUp names name) SameValue := by
  apply Sim.left (spelled ▸ reach_sim h)
  intro W' _ _ here
  subst here
  intro w s related back
  have same := h.value_same related back
  rw [← spelled] at same
  exact Sim.liftValue (orFail_likewise name.line _ same) w s related back

theorem lift_assignName (w : Watched.State) (id : NodeId) (name : Token) (v : Value) :
    Watched.lift (Lox.assignName id name v) w =
      match w.machine.ownerOf? id name.lexeme with
      | some frame => .ok () { w with machine := w.machine.mapStore (·.put frame name.lexeme v) }
      | none => .error (.error (.program name.line (.undefinedVariable name.lexeme))) w := by
  unfold Watched.lift
  rw [assignName_run]
  cases w.machine.ownerOf? id name.lexeme <;> rfl

theorem lexical_assignName (s : Lexical.State) (names : Names) (name : Token) (v : Value) :
    Lexical.assignName names name v s =
      match s.find? names name.lexeme with
      | some c =>
        if (s.valueOf? c).isSome then .ok () (s.fill c v)
        else .error (.error (.program name.line (.undefinedVariable name.lexeme))) s
      | none =>
        match s.machine.store.owner? globalEnv name.lexeme with
        | some frame => .ok () { s with machine := s.machine.mapStore (·.put frame name.lexeme v) }
        | none => .error (.error (.program name.line (.undefinedVariable name.lexeme))) s := by
  show (match s.find? names name.lexeme with
    | some c =>
      if (s.valueOf? c).isSome then modify (·.fill c v)
      else Lexical.lift (fail name.line (.undefinedVariable name.lexeme))
    | none =>
      match s.machine.store.owner? globalEnv name.lexeme with
      | some frame => Lexical.lift (modify (·.mapStore (·.put frame name.lexeme v)))
      | none => Lexical.lift (fail name.line (.undefinedVariable name.lexeme)) : Exec Unit) s = _
  cases s.find? names name.lexeme with
  | some c =>
    dsimp only
    split <;> rfl
  | none =>
    dsimp only
    cases s.machine.store.owner? globalEnv name.lexeme <;> rfl

/-- A name that has a value already gets another one; nothing is new in the world. -/
theorem grow_bound {f : FrameId} {x : String} (bound : (f, x) ∈ W.bound) :
    Grow head W (W.bind f x) := by
  refine ⟨W.le_bind f x, fun g y _ _ => ⟨id, fun mem => ?_⟩⟩
  rcases World.mem_bind.1 mem with ⟨rfl, rfl⟩ | old
  · exact bound
  · exact old

/-- Both runs change the value of a name, or neither does. -/
theorem assignName_sim {site : Site} (h : Reaches W site names env) {name : Token}
    (spelled : name.lexeme = site.name) (other : name.lexeme ≠ "this") {v v' : Value}
    (same : SameValue W v v') :
    Sim none W env (Watched.assignName site.id name v) (Lexical.assignName names name v')
      fun _ _ _ => True := by
  apply Sim.left (spelled ▸ reach_sim h)
  intro W' _ _ here
  subst here
  intro w s related back
  have entry := related.logged.filed.entry site h.known
  show Agree none W' env _ (Watched.lift (Lox.assignName site.id name v) w) _
  rw [lift_assignName, lexical_assignName, related.frames.find?, spelled]
  unfold Machine.ownerOf?
  rw [entry]
  cases place : distance site.scopes site.name with
  | some d =>
    obtain ⟨c, f, found, frame, cell⟩ := h.present d place
    have value := rel_isSome (related.frames.valueOf? cell)
    have bound := related.frames.bound f site.name
    unfold Store.ownerAt? Store.binds
    rw [found, back]
    dsimp only
    rw [frame, Option.filter_some, value]
    rw [value] at bound
    cases isBound : (s.valueOf? c).isSome with
    | true =>
      rw [if_pos rfl]
      exact .ok (grow_bound (bound.2 isBound))
        (related.put cell (same.mono (World.le_bind _ f site.name))
          fun this => absurd (spelled.trans this) other) back trivial
    | false => exact .error (Grow.refl _ _) related back
  | none =>
    rw [h.absent place]
    dsimp only
    have bound := related.frames.bound globalFrame site.name
    rw [rel_isSome (related.frames.globals site.name)] at bound
    rw [owner?_global, owner?_global]
    unfold Store.binds
    rw [rel_isSome (related.frames.globals site.name)]
    cases isBound : (s.machine.store.getHere? globalFrame site.name).isSome with
    | true =>
      exact .ok (grow_bound (bound.2 isBound))
        (related.putGlobal (same.mono (World.le_bind _ globalFrame site.name))) back trivial
    | false => exact .error (Grow.refl _ _) related back

end Values

end Lox.Scoping
