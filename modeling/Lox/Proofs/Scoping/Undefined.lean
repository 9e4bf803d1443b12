import Lox.Proofs.Scoping.InStep

/-!
# Undefined variables

A node that is bound in a scope finds its name there, with one exception: an assignment to a local
variable in the variable's own initializer (`session_resolves`). The walk refuses such a node only
where it reads.
-/

namespace Lox.Scoping

open Binding (Site distance programSites)
open Watched (Event)
open EStateM (Result)

/-- It ends with the error `Undefined variable`. -/
def IsUndefined {α : Type} : Result Halt Machine α → Prop
  | .error (.error (.program _ (.undefinedVariable _))) _ => True
  | _ => False

/-! ### What a node comes to -/

section Nodes

variable {m : Machine} {id : NodeId} {d : Nat}

theorem lookUp_undefined (id : NodeId) (name : Token) (m : Machine) :
    IsUndefined (lookUp id name m) ↔ m.valueAt? id name.lexeme = none := by
  rw [lookUp_run]
  cases m.valueAt? id name.lexeme with
  | none => exact ⟨fun _ => rfl, fun _ => trivial⟩
  | some v => exact ⟨fun h => h.elim, nofun⟩

theorem assignName_undefined (id : NodeId) (name : Token) (v : Value) (m : Machine) :
    IsUndefined (assignName id name v m) ↔ m.ownerOf? id name.lexeme = none := by
  rw [assignName_run]
  cases m.ownerOf? id name.lexeme with
  | none => exact ⟨fun _ => rfl, fun _ => trivial⟩
  | some frame => exact ⟨fun h => h.elim, nofun⟩

theorem valueAt?_local (recorded : m.distances[id]? = some d) (name : String) :
    m.valueAt? id name = m.store.getAt? m.env d name := by
  unfold Machine.valueAt?
  rw [recorded]

/-- There is a frame to assign to just where there is a value. -/
theorem ownerOf?_local (recorded : m.distances[id]? = some d) (name : String) :
    m.ownerOf? id name = none ↔ m.store.getAt? m.env d name = none := by
  unfold Machine.ownerOf? Store.ownerAt? Store.getAt? Store.binds
  rw [recorded]
  dsimp only
  cases m.env[d]? with
  | none => exact ⟨fun _ => rfl, fun _ => rfl⟩
  | some f =>
    rw [Option.filter_some, Option.bind_some]
    cases m.store.getHere? f name with
    | none => exact ⟨fun _ => rfl, fun _ => rfl⟩
    | some v => exact ⟨nofun, nofun⟩

/-- With a class and an instance at hand, a method of the superclass may be missing but no variable
is. -/
theorem superMethod_defined {keyword method : Token} {v : Value} {c : Class} {object : ObjectId}
    (recorded : m.distances[id]? = some d)
    (found : m.store.getAt? m.env d keyword.lexeme = some v)
    (receiver : m.store.getAt? m.env (d - 1) "this" = some (.instance c object)) :
    ¬ IsUndefined (superMethod id keyword method m) := by
  rw [superMethod_placed recorded found receiver method]
  cases classOf? v with
  | none => exact fun h => h
  | some superclass =>
    have taken := takeMethod_taken superclass c object method m
    show ¬ IsUndefined (takeMethod superclass c object method m)
    generalize takeMethod superclass c object method m = r at taken ⊢
    cases taken with
    | declared nearest => exact fun h => h
    | native nearest => exact fun h => h
    | missing absent => exact fun h => h

end Nodes

/-- An assignment to a local variable that stands in the initializer of that variable. -/
def AssignsInInitializer (site : Site) : Prop := site.writes = true ∧ Pending site

/-- What a node comes to that is bound `d` scopes out. -/
structure Resolves (m : Machine) (site : Site) (d : Nat) : Prop where
  /-- The scope is there, and it binds the name but in one case. -/
  binds : ∃ f, m.env[d]? = some f ∧ f ≠ globalFrame ∧
    (m.store.binds site.name f = true ↔ ¬ AssignsInInitializer site)
  read : ∀ name, name.lexeme = site.name →
    (IsUndefined (lookUp site.id name m) ↔ AssignsInInitializer site)
  write : ∀ name v, name.lexeme = site.name →
    (IsUndefined (assignName site.id name v m) ↔ AssignsInInitializer site)
  super : site.name = "super" → ∀ keyword method, keyword.lexeme = site.name →
    ¬ IsUndefined (superMethod site.id keyword method m)

theorem Parity.resolves {log : List Event} {m : Machine} {site : Site} {d : Nat}
    (h : Parity log m site) (resolved : Resolved m site)
    (recorded : m.distances[site.id]? = some d) : Resolves m site d where
  binds := by
    have found := h.entry.symm.trans recorded
    obtain ⟨s, scope, -⟩ := Binding.distance_some found
    have below := (List.getElem?_eq_some_iff.1 scope).1
    obtain ⟨f, frame⟩ : ∃ f, m.env[d]? = some f := by
      refine ⟨_, List.getElem?_eq_getElem ?_⟩
      rw [h.depth]
      exact Nat.lt_succ_of_lt below
    have missing := resolved.missing d found
    unfold Store.getAt? at missing
    rw [frame, Option.bind_some, ← Option.not_isSome_iff_eq_none] at missing
    exact ⟨f, frame, h.locals d f below frame, by
      rw [AssignsInInitializer, ← missing, not_not]
      rfl⟩
  read name same := by
    rw [lookUp_undefined, same, valueAt?_local recorded]
    exact resolved.missing d (h.entry.symm.trans recorded)
  write name v same := by
    rw [assignName_undefined, same, ownerOf?_local recorded]
    exact resolved.missing d (h.entry.symm.trans recorded)
  super isSuper keyword method same := by
    have found := h.entry.symm.trans recorded
    obtain ⟨notPending, c, o, receiver⟩ := resolved.receiver d found isSuper
    cases value : m.store.getAt? m.env d site.name with
    | none => exact absurd ((resolved.missing d found).1 value).2 notPending
    | some v => exact superMethod_defined recorded (same ▸ value) receiver

/-- For every session: a node that is bound in a scope finds its name there, unless it assigns to a
variable in the variable's own initializer, and then it does not. -/
theorem session_resolves (input : List UInt8) (sink : Sink) (clock : Nat → Float)
    (texts : List (Nat × String)) {id : NodeId} {name : String} {m : Machine} {d : Nat}
    (reached : .reached id name m ∈ ((Watched.State.start input sink clock).session texts).log)
    (recorded : m.distances[id]? = some d) :
    ∃ program site, .accepted program ∈ ((Watched.State.start input sink clock).session texts).log ∧
      site ∈ programSites program ∧ site.id = id ∧ site.name = name ∧ Resolves m site d := by
  obtain ⟨W, s, related, -⟩ := (paused_start input sink clock).session texts
  have log := related.logged
  obtain ⟨site, known, rfl, rfl, parity, resolved⟩ := log.reached id name m reached
  rw [log.sites] at known
  obtain ⟨program, accepted, inside⟩ := mem_sitesOf.1 known
  exact ⟨program, site, accepted, inside, rfl, rfl, parity.resolves resolved recorded⟩

/-- The case that the walk lets pass. -/
theorem session_resolves_initializer :
    let log := ((Watched.State.start [] .unlimited fun _ => 0).session
      [(3, "\x7b var a = (a = true); \x7d")]).log
    ∃ m, .reached 1 "a" m ∈ log ∧ m.distances[1]? = some 0 ∧
      ∃ program site, .accepted program ∈ log ∧ site ∈ programSites program ∧ site.id = 1 ∧
        site.name = "a" ∧ Resolves m site 0 := by
  intro log
  have check : reachedWhere log 1 "a" (fun m => m.distances[1]? == some 0) = true := by
    decide +kernel
  obtain ⟨m, reached, recorded⟩ := exists_of_reachedWhere check
  have recorded := beq_iff_eq.1 recorded
  exact ⟨m, reached, recorded, session_resolves _ _ _ _ reached recorded⟩

end Lox.Scoping
