import Lox.Proofs.Run.Linked
import Lox.Proofs.Run.Steady
import Lox.Proofs.Session.Traced

/-!
# The graph of a session

There is one graph for all states that a session goes through, so that no link of a scope, no
superclass and no method of a class is ever another than it was made, and to follow them always comes
to an end (`session_linked`).
-/

namespace Lox

namespace Graph

/-- All states that a session goes through are in the graph, between texts and while they run. -/
def Covers (G : Graph) (m : Machine) : List (Nat × String) → Prop
  | [] => G.Describes m
  | (fuel, source) :: texts =>
    G.Describes m ∧ (∀ k ∈ m.trace fuel source, G.Sees k) ∧ G.Covers (m.run fuel source).2 texts

/-! ### The start -/

/-- The globals and the classes that are supplied. The identity before these is the clock's. -/
def start : Graph where
  scopes := [none]
  callables := [none, some Native.inputClass, some Native.listClass]
  globals := rfl
  outward {f g} link := by
    have top := List.mem_singleton.1 (List.mem_of_getElem? link)
    cases top
  identity {i c} known := by
    match i with
    | 0 => cases known
    | 1 | 2 => cases known; rfl
    | i + 3 => cases known
  upward {i c p} known is := by
    match i with
    | 0 => cases known
    | 1 | 2 => cases known; cases is
    | i + 3 => cases known
  methods {i c entry closure} known mem declared := by
    have natives : ∀ entry ∈ c.methods, ∃ op, entry.2 = .native op := by
      match i with
      | 0 => cases known
      | 1 =>
        cases known
        dsimp only [Native.inputClass]
        simp
      | 2 =>
        cases known
        dsimp only [Native.listClass]
        simp
      | i + 3 => cases known
    obtain ⟨op, native⟩ := natives entry mem
    cases native.symm.trans declared

theorem all_empty (P : Value → Prop) : Store.empty.All P where
  bindings found := by simp [Store.getHere?, Store.empty] at found
  fields found := by simp [Store.field?, Store.empty] at found
  elements mem := by simp [Store.slots, Store.empty] at mem

theorem fits_start (input : List UInt8) (sink : Sink) (clock : Nat → Float) :
    start.Fits (.start input sink clock) where
  env := .globals
  store := by
    have bare : (Store.empty.child []).2.allocate.2.All start.Holds :=
      ((all_empty _).child []).allocate
    have clock := bare.put (v := .callable (.native 0 .clock none)) trivial globalFrame "clock"
    have input := clock.put (v := .instance Native.inputClass 0) rfl globalFrame "input"
    exact input.put (v := .callable (.class Native.listClass)) rfl globalFrame "List"
  scopes := by
    show [none].length = Machine.startStore.frames.size
    simp [Machine.startStore, Machine.supplied, Store.put, Store.allocate, Store.child, Store.empty]
  callables := rfl

end Graph

/-! ### Texts -/

theorem run_linked {G : Graph} {m : Machine} (fits : G.Fits m) (fuel : Nat) (source : String) :
    ∃ H, G.Later H ∧ H.Fits (m.run fuel source).2 ∧ ∀ k ∈ m.trace fuel source, H.Sees k := by
  cases read : (compile source m.nextNode).result with
  | error faults =>
    obtain ⟨run, trace⟩ := run_unread read fuel
    rw [run, trace]
    exact ⟨G, .refl G, fits.of_same rfl rfl rfl, List.forall_mem_nil _⟩
  | ok program =>
    have loaded : G.Fits (m.loaded source program) := fits.of_same rfl rfl rfl
    by_cases clean : (Binding.program program).faults = []
    · obtain ⟨run, trace⟩ := run_loaded read clean fuel
      rw [run, trace, ofResult_thenFlush]
      exact runAll_linked fuel program loaded
    · obtain ⟨run, trace⟩ := run_misbound read clean fuel
      rw [run, trace]
      exact ⟨G, .refl G, loaded, List.forall_mem_nil _⟩

theorem texts_linked {G : Graph} {m : Machine} (fits : G.Fits m) (texts : List (Nat × String)) :
    ∃ H, G.Later H ∧ H.Covers m texts := by
  induction texts generalizing G m with
  | nil => exact ⟨G, .refl G, fits.toDescribes⟩
  | cons text texts ih =>
    obtain ⟨fuel, source⟩ := text
    obtain ⟨H, later, after, moments⟩ := run_linked fits fuel source
    obtain ⟨K, more, covers⟩ := ih after
    exact ⟨K, later.trans more, (later.trans more).describes fits.toDescribes,
      fun k mem => more.sees (moments k mem), covers⟩

/-- In every session scopes and classes are linked once and for all, without circles. -/
theorem session_linked (input : List UInt8) (sink : Sink) (clock : Nat → Float)
    (texts : List (Nat × String)) :
    ∃ G : Graph, G.Settled ∧ G.Covers (Machine.start input sink clock) texts := by
  obtain ⟨G, -, covers⟩ := texts_linked (Graph.fits_start input sink clock) texts
  exact ⟨G, G.settled, covers⟩

end Lox
