import Lox.Proofs.Run.Watched

/-!
# Parity

What it means that a run is where the walk was: the environment of the machine has the scopes of a
site, each opened for what the scope stands for, and binds what they hold as defined.
-/

namespace Lox.Scoping

open Binding (Scope Site Origin distance)
open Watched (Event)

/-- The machine is where the walk was when it visited the site. -/
structure Parity (log : List Event) (m : Machine) (site : Site) : Prop where
  depth : m.env.length = site.scopes.length + 1
  root : m.env[site.scopes.length]? = some globalFrame
  locals : ∀ (i : Nat) f, i < site.scopes.length → m.env[i]? = some f → f ≠ globalFrame
  origins : site.origins.length = site.scopes.length
  /-- The environment from a frame outward was opened for what the scope stands for. -/
  instances : ∀ (i : Nat) o, site.origins[i]? = some o → Event.opened o (m.env.drop i) ∈ log
  /-- A class in whose superclass clause the node stands is not bound yet. -/
  bound : ∀ (i : Nat) s f x, site.scopes[i]? = some s → m.env[i]? = some f →
    s.lookup x = some true → m.store.binds x f = true ∨ i = 0 ∧ site.own = some x
  entry : m.distances[site.id]? = distance site.scopes site.name

theorem Parity.mono {log log' : List Event} {m : Machine} {site : Site} (h : Parity log m site)
    (sub : log ⊆ log') : Parity log' m site :=
  { h with instances := fun i o mine => sub (h.instances i o mine) }

/-- The node stands in the initializer of the local variable that it names. -/
def Pending (site : Site) : Prop := site.scopes.head?.bind (·.lookup site.name) = some false

/-- What becomes of a node that is bound in a scope. -/
structure Resolved (m : Machine) (site : Site) : Prop where
  /-- Only an assignment in the initializer of its own variable finds no value. -/
  missing : ∀ d, distance site.scopes site.name = some d →
    (m.store.getAt? m.env d site.name = none ↔ site.writes = true ∧ Pending site)
  /-- The instance for a method of the superclass is just inside. -/
  receiver : ∀ d, distance site.scopes site.name = some d → site.name = "super" →
    ¬ Pending site ∧ ∃ c o, m.store.getAt? m.env (d - 1) "this" = some (.instance c o)

/-! ### What a log tells -/

def sitesOf (log : List Event) : List Site :=
  log.flatMap fun
    | .accepted program => Binding.programSites program
    | _ => []

/-- The scopes that were opened, the latest first. -/
def openedOf (log : List Event) : List (Origin × Env) :=
  log.filterMap fun
    | .opened origin env => some (origin, env)
    | _ => none

theorem mem_sitesOf {log : List Event} {site : Site} :
    site ∈ sitesOf log ↔
      ∃ program, Event.accepted program ∈ log ∧ site ∈ Binding.programSites program := by
  unfold sitesOf
  rw [List.mem_flatMap]
  constructor
  · intro found
    obtain ⟨event, mem, inside⟩ := found
    cases event with
    | accepted program => exact ⟨program, mem, inside⟩
    | opened origin env => exact absurd inside List.not_mem_nil
    | reached id name m => exact absurd inside List.not_mem_nil
  · intro found
    obtain ⟨program, mem, inside⟩ := found
    exact ⟨_, mem, inside⟩

theorem mem_openedOf {log : List Event} {origin : Origin} {env : Env} :
    (origin, env) ∈ openedOf log ↔ Event.opened origin env ∈ log := by
  unfold openedOf
  rw [List.mem_filterMap]
  constructor
  · intro found
    obtain ⟨event, mem, found⟩ := found
    cases event with
    | opened o e =>
      obtain ⟨rfl, rfl⟩ := Prod.mk.inj (Option.some.inj found)
      exact mem
    | accepted program => exact absurd found (by simp)
    | reached id name m => exact absurd found (by simp)
  · intro mem
    exact ⟨_, mem, rfl⟩

/-- The table of distances has the sites, each under its own number. -/
structure Filed (sites : List Site) (m : Machine) : Prop where
  entry : ∀ site ∈ sites, m.distances[site.id]? = distance site.scopes site.name
  distinct : (sites.map Site.id).Nodup
  numbered : ∀ site ∈ sites, site.id < m.nextNode
  later : ∀ id : NodeId, m.nextNode ≤ id → m.distances[id]? = none

end Lox.Scoping
