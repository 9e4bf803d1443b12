import Lox.Proofs.Run.Erasure
import Lox.Proofs.Scoping.Session

/-!
# Runs and walks are in step

Whenever a session reaches a node that names a binding, its environment has the scopes that the walk
had there, each opened for what the scope stands for (`session_inStep`).
-/

namespace Lox.Scoping

open Binding (Site Origin distance programSites)
open Watched (Event)

/-- The node reads and changes its name exactly as far out as the walk found it, or else among the
globals. -/
def Touches (m : Machine) (site : Site) : Prop :=
  match distance site.scopes site.name with
  | some d =>
    m.valueAt? site.id site.name = m.store.getAt? m.env d site.name ∧
      m.ownerOf? site.id site.name = m.store.ownerAt? m.env d site.name
  | none =>
    m.valueAt? site.id site.name = m.store.getHere? globalFrame site.name ∧
      m.ownerOf? site.id site.name =
        if m.store.binds site.name globalFrame then some globalFrame else none

theorem Parity.touches {log : List Event} {m : Machine} {site : Site} (h : Parity log m site) :
    Touches m site := by
  unfold Touches Machine.valueAt? Machine.ownerOf?
  rw [h.entry]
  cases distance site.scopes site.name with
  | some d => exact ⟨rfl, rfl⟩
  | none => exact ⟨get?_global m.store site.name, owner?_global m.store site.name⟩

/-- The node is at one site of one accepted program, and the machine is where the walk was. -/
def InStep (log : List Event) (id : NodeId) (name : String) (m : Machine) : Prop :=
  ∃ program site, Event.accepted program ∈ log ∧ site ∈ programSites program ∧ site.id = id ∧
    site.name = name ∧ Parity log m site ∧ Touches m site ∧
    ∀ program' site', Event.accepted program' ∈ log → site' ∈ programSites program' →
      site'.id = id → site' = site

/-- No frame was opened for two scopes. -/
def OpenedOnce (log : List Event) : Prop :=
  ∀ origin env origin' env', Event.opened origin env ∈ log → Event.opened origin' env' ∈ log →
    env.head? = env'.head? → origin = origin' ∧ env = env'

theorem Related.inStep {W : World} {w : Watched.State} {s : Lexical.State} (h : Related W w s)
    {id : NodeId} {name : String} {m : Machine} (reached : .reached id name m ∈ w.log) :
    InStep w.log id name m := by
  have log := h.logged
  obtain ⟨site, known, sameId, sameName, parity, -⟩ := log.reached id name m reached
  have member := known
  rw [log.sites] at member
  obtain ⟨program, accepted, inside⟩ := mem_sitesOf.1 member
  refine ⟨program, site, accepted, inside, sameId, sameName, parity, parity.touches,
    fun program' site' accepted' inside' same => ?_⟩
  have known' : site' ∈ W.sites := by
    rw [log.sites]
    exact mem_sitesOf.2 ⟨program', accepted', inside'⟩
  exact List.inj_on_of_nodup_map log.filed.distinct known' known (same.trans sameId.symm)

theorem Related.openedOnce {W : World} {w : Watched.State} {s : Lexical.State}
    (h : Related W w s) : OpenedOnce w.log := by
  intro origin env origin' env' first second same
  have log := h.logged
  rw [← mem_openedOf, ← log.opened] at first second
  exact Prod.mk.inj (List.inj_on_of_nodup_map log.once first second same)

/-- For every session: it is a session of the evaluator with a log, no frame is opened twice, and
every node that is reached is where the walk saw it. -/
theorem session_inStep (input : List UInt8) (sink : Sink) (clock : Nat → Float)
    (texts : List (Nat × String)) :
    let w := (Watched.State.start input sink clock).session texts
    w.machine = (Machine.start input sink clock).session texts ∧ OpenedOnce w.log ∧
      ∀ id name m, .reached id name m ∈ w.log → InStep w.log id name m := by
  obtain ⟨W, s, related, -⟩ := (paused_start input sink clock).session texts
  exact ⟨Watched.session_erases _ texts, related.openedOnce, fun _ _ _ => related.inStep⟩

/-- Whether a node was reached at some time in such a machine. -/
def reachedWhere (log : List Event) (id : NodeId) (name : String) (p : Machine → Bool) : Bool :=
  log.any fun
    | .reached i x m => i == id && x == name && p m
    | _ => false

theorem exists_of_reachedWhere {log : List Event} {id : NodeId} {name : String}
    {p : Machine → Bool} (h : reachedWhere log id name p = true) :
    ∃ m, .reached id name m ∈ log ∧ p m = true := by
  obtain ⟨event, mem, same⟩ := List.any_eq_true.1 h
  cases event with
  | accepted program => exact absurd same (by simp)
  | opened origin env => exact absurd same (by simp)
  | reached i x m =>
    rw [Bool.and_eq_true, Bool.and_eq_true, beq_iff_eq, beq_iff_eq] at same
    obtain ⟨⟨rfl, rfl⟩, holds⟩ := same
    exact ⟨m, mem, holds⟩

/-- A name in a function that is called after the block around it has ended. -/
theorem session_inStep_closure :
    let w := (Watched.State.start [] .unlimited fun _ => 0).session
      [(3, "var f; \x7b var a = true; fun g() \x7b return a; \x7d f = g; \x7d"), (3, "print f();")]
    ∃ m, .reached 0 "a" m ∈ w.log ∧ InStep w.log 0 "a" m := by
  intro w
  have check : reachedWhere w.log 0 "a" (fun _ => true) = true := by decide +kernel
  obtain ⟨m, reached, -⟩ := exists_of_reachedWhere check
  exact ⟨m, reached, (session_inStep _ _ _ _).2.2 0 "a" m reached⟩

end Lox.Scoping
