import Mathlib.Data.List.Nodup
import Lox.Proofs.Scoping.Parity
import Lox.Proofs.Scoping.Value

/-!
# States of both runs

A watched run and a reference run are related in a world (`Related`): the machines share everything
but frames and distances, every cell holds what its frame binds, and all that the log says about
nodes is in order.
-/

namespace Lox.Scoping

open Binding (Scope Site Origin distance)
open Lexical (Names CellId)

/-! ### Optional values -/

theorem optional_mono {W W' : World} {a b : Option Value} (h : Option.Rel (SameValue W) a b)
    (le : W.Le W') : Option.Rel (SameValue W') a b :=
  rel_mono h fun _ _ same => same.mono le

/-! ### What the machines share -/

structure SameObject (W : World) (o o' : Object) : Prop where
  fields : ∀ x : String, Option.Rel (SameValue W) (o.fields[x]?) (o'.fields[x]?)
  slots : List.Forall₂ (SameValue W) o.slots.toList o'.slots.toList

theorem SameObject.mono {W W' : World} {o o' : Object} (h : SameObject W o o') (le : W.Le W') :
    SameObject W' o o' :=
  ⟨fun x => optional_mono (h.fields x) le,
    h.slots.imp fun _ _ same => same.mono le⟩

/-- Objects, streams and identities are the same in both machines. -/
structure Shared (W : World) (m m' : Machine) : Prop where
  count : m.store.objects.size = m'.store.objects.size
  objects : ∀ i : Nat, Option.Rel (SameObject W) (m.store.objects[i]?) (m'.store.objects[i]?)
  input : m.input = m'.input
  sink : m.sink = m'.sink
  clock : m.clock = m'.clock
  ticks : m.ticks = m'.ticks
  nextIdentity : m.nextIdentity = m'.nextIdentity

theorem Shared.mono {W W' : World} {m m' : Machine} (h : Shared W m m') (le : W.Le W') :
    Shared W' m m' :=
  { h with objects := fun i => rel_mono (h.objects i) fun _ _ same => same.mono le }

/-! ### Frames and cells -/

structure Frames (W : World) (store : Store) (s : Lexical.State) : Prop where
  size : store.frames.size = W.size
  positive : globalFrame < W.size
  top : globalFrame < s.machine.store.frames.size
  globals : ∀ x, Option.Rel (SameValue W) (store.getHere? globalFrame x)
    (s.machine.store.getHere? globalFrame x)
  located : ∀ f x, (f, x) ∈ W.cells → f < W.size ∧ f ≠ globalFrame
  bound : ∀ f x, (f, x) ∈ W.bound ↔ (store.getHere? f x).isSome
  distinct : W.cells.Nodup
  count : s.cells.size = W.cells.length
  labels : ∀ (c : Nat) f x, W.cells[c]? = some (f, x) →
    ∃ v, s.cells[c]? = some ⟨x, v⟩ ∧ Option.Rel (SameValue W) (store.getHere? f x) v
  this : ∀ f v, f ≠ globalFrame → store.getHere? f "this" = some v → ∃ c o, v = .instance c o

namespace Frames

variable {W : World} {store : Store} {s : Lexical.State}

theorem keep (h : Frames W store s) {store' : Store} {s' : Lexical.State}
    (frames : store'.frames = store.frames)
    (frames' : s'.machine.store.frames = s.machine.store.frames) (cells : s'.cells = s.cells) :
    Frames W store' s' := by
  have here : ∀ f x, store'.getHere? f x = store.getHere? f x := by
    intro f x
    unfold Store.getHere?
    rw [frames]
  have here' : ∀ f x, s'.machine.store.getHere? f x = s.machine.store.getHere? f x := by
    intro f x
    unfold Store.getHere?
    rw [frames']
  refine ⟨frames ▸ h.size, h.positive, frames' ▸ h.top, fun x => ?_, h.located, fun f x => ?_,
    h.distinct, cells ▸ h.count, fun c f x found => ?_, fun f v other found => ?_⟩
  · rw [here, here']
    exact h.globals x
  · rw [here]
    exact h.bound f x
  · rw [cells, here]
    exact h.labels c f x found
  · rw [here] at found
    exact h.this f v other found

theorem accept (h : Frames W store s) (program : List Stmt) :
    Frames (W.accept program) store s := by
  have le := W.le_accept program
  refine { h with globals := fun x => optional_mono (h.globals x) le,
                  labels := fun c f x found => ?_ }
  obtain ⟨v, cell, same⟩ := h.labels c f x found
  exact ⟨v, cell, optional_mono same le⟩

/-- A frame that does not exist binds nothing. -/
theorem empty (h : Frames W store s) (x : String) :
    (W.size, x) ∉ W.cells ∧ (W.size, x) ∉ W.bound := by
  refine ⟨fun mem => absurd (h.located _ x mem).1 (Nat.lt_irrefl _), fun mem => ?_⟩
  have some := (h.bound W.size x).1 mem
  unfold Store.getHere? at some
  rw [Array.getElem?_eq_none (Nat.le_of_eq h.size)] at some
  exact absurd some (by simp)

theorem openFrame (h : Frames W store s) (origin : Origin) (env : Env) :
    Frames (W.openFrame origin env) (store.child env).2 s := by
  have le := W.le_openFrame origin env
  have here := store.getHere?_child env
  refine ⟨?_, Nat.lt_succ_of_lt h.positive, h.top, fun x => ?_, fun f x mem => ?_,
    fun f x => ?_, h.distinct, h.count, fun c f x found => ?_, fun f v other found => ?_⟩
  · simp [Store.child, World.openFrame, h.size]
  · rw [here]
    exact optional_mono (h.globals x) le
  · have old := h.located f x mem
    exact ⟨Nat.lt_succ_of_lt old.1, old.2⟩
  · rw [here]
    exact h.bound f x
  · obtain ⟨v, cell, same⟩ := h.labels c f x found
    rw [here]
    exact ⟨v, cell, optional_mono same le⟩
  · rw [here] at found
    exact h.this f v other found

theorem place (h : Frames W store s) {f : FrameId} {name : String} (inside : f < W.size)
    (isLocal : f ≠ globalFrame) (new : (f, name) ∉ W.cells) (unset : (f, name) ∉ W.bound) :
    Frames (W.place f name) store { s with cells := s.cells.push ⟨name, none⟩ } := by
  have le := W.le_place f name
  refine ⟨h.size, h.positive, h.top, fun x => optional_mono (h.globals x) le,
    fun g x mem => ?_, h.bound, ?_, ?_, fun c g x found => ?_, h.this⟩
  · rcases World.mem_place.1 mem with old | ⟨rfl, rfl⟩
    · exact h.located g x old
    · exact ⟨inside, isLocal⟩
  · refine List.nodup_append.2 ⟨h.distinct, by simp, fun p old q placed same => ?_⟩
    rw [same, List.mem_singleton.1 placed] at old
    exact new old
  · simp [World.place, h.count]
  · have cells : (W.cells ++ [(f, name)])[c]? = some (g, x) := found
    rw [List.getElem?_append] at cells
    by_cases old : c < W.cells.length
    · rw [if_pos old] at cells
      obtain ⟨v, cell, same⟩ := h.labels c g x cells
      refine ⟨v, ?_, optional_mono same le⟩
      rw [Array.getElem?_push, if_neg (by rw [h.count]; exact Nat.ne_of_lt old)]
      exact cell
    · rw [if_neg old] at cells
      have last : c = W.cells.length := by
        have bounds := (List.getElem?_eq_some_iff.1 cells).1
        rw [List.length_singleton] at bounds
        omega
      rw [last, Nat.sub_self] at cells
      obtain ⟨rfl, rfl⟩ := Prod.mk.inj (Option.some.inj cells)
      refine ⟨none, ?_, ?_⟩
      · rw [last, ← h.count]
        exact Array.getElem?_push_size
      · have none : store.getHere? f name = none := by
          rw [← Option.not_isSome_iff_eq_none, ← h.bound f name]
          exact unset
        rw [none]
        exact .none

theorem bound_put (h : Frames W store s) {f : FrameId} (inside : f < W.size) (name : String)
    (v : Value) (g : FrameId) (x : String) :
    (g, x) ∈ (W.bind f name).bound ↔ ((store.put f name v).getHere? g x).isSome := by
  rw [World.mem_bind, store.getHere?_put f g name x v (by rw [h.size]; exact inside)]
  by_cases both : g = f ∧ x = name
  · rw [if_pos both]
    exact ⟨fun _ => rfl, fun _ => .inl both⟩
  · rw [if_neg both, ← h.bound g x]
    exact ⟨fun either => either.resolve_left both, .inr⟩

theorem put (h : Frames W store s) {c : CellId} {f : FrameId} {name : String} {v v' : Value}
    (cell : W.cells[c]? = some (f, name)) (same : SameValue (W.bind f name) v v')
    (receiver : name = "this" → ∃ d o, v = .instance d o) :
    Frames (W.bind f name) (store.put f name v) (s.fill c v') := by
  have le := W.le_bind f name
  obtain ⟨inside, isLocal⟩ := h.located f name (List.mem_of_getElem? cell)
  have here : ∀ g x, (store.put f name v).getHere? g x =
      if g = f ∧ x = name then some v else store.getHere? g x :=
    fun g x => store.getHere?_put f g name x v (by rw [h.size]; exact inside)
  refine ⟨?_, h.positive, h.top, fun x => ?_, h.located, h.bound_put inside name v, h.distinct, ?_,
    fun d g x found => ?_, fun g u other found => ?_⟩
  · simp [Store.put, h.size, World.bind]
  · rw [here, if_neg fun both => isLocal both.1.symm]
    exact optional_mono (h.globals x) le
  · simp [Lexical.State.fill, h.count, World.bind]
  · have found : W.cells[d]? = some (g, x) := found
    obtain ⟨u, old, before⟩ := h.labels d g x found
    simp only [Lexical.State.fill, Array.getElem?_modify]
    rw [here, old]
    by_cases mine : c = d
    · have both : g = f ∧ x = name := by
        rw [← mine, cell] at found
        exact (Prod.mk.inj (Option.some.inj found)).imp Eq.symm Eq.symm
      rw [if_pos mine, if_pos both]
      exact ⟨some v', rfl, .some same⟩
    · -- No two cells stand for one name in one frame.
      have different : ¬(g = f ∧ x = name) := by
        intro both
        obtain ⟨rfl, rfl⟩ := both
        obtain ⟨below, first⟩ := List.getElem?_eq_some_iff.1 cell
        obtain ⟨below', second⟩ := List.getElem?_eq_some_iff.1 found
        exact mine ((List.Nodup.getElem_inj_iff h.distinct).1 (first.trans second.symm))
      rw [if_neg mine, if_neg different]
      exact ⟨u, rfl, optional_mono before le⟩
  · rw [here] at found
    by_cases both : g = f ∧ "this" = name
    · rw [if_pos both] at found
      obtain rfl := Option.some.inj found
      exact receiver both.2.symm
    · rw [if_neg both] at found
      exact h.this g u other found

theorem putGlobal (h : Frames W store s) {name : String} {v v' : Value}
    (same : SameValue (W.bind globalFrame name) v v') :
    Frames (W.bind globalFrame name) (store.put globalFrame name v)
      { s with machine := s.machine.mapStore (·.put globalFrame name v') } := by
  have le := W.le_bind globalFrame name
  have here : ∀ g x, (store.put globalFrame name v).getHere? g x =
      if g = globalFrame ∧ x = name then some v else store.getHere? g x :=
    fun g x => store.getHere?_put globalFrame g name x v (by rw [h.size]; exact h.positive)
  have here' : ∀ g x, (s.machine.store.put globalFrame name v').getHere? g x =
      if g = globalFrame ∧ x = name then some v' else s.machine.store.getHere? g x :=
    fun g x => s.machine.store.getHere?_put globalFrame g name x v' h.top
  have other : ∀ g x, g ≠ globalFrame →
      (store.put globalFrame name v).getHere? g x = store.getHere? g x := by
    intro g x isLocal
    rw [here, if_neg fun both => isLocal both.1]
  refine ⟨?_, h.positive, ?_, fun x => ?_, h.located, h.bound_put h.positive name v, h.distinct,
    h.count, fun c g x found => ?_, fun g u isLocal found => ?_⟩
  · simp [Store.put, h.size, World.bind]
  · simpa [Store.put, Machine.mapStore] using h.top
  · show Option.Rel (SameValue _) _ ((s.machine.store.put globalFrame name v').getHere? _ x)
    rw [here, here']
    by_cases mine : x = name
    · rw [if_pos ⟨rfl, mine⟩, if_pos ⟨rfl, mine⟩]
      exact .some same
    · rw [if_neg fun both => mine both.2, if_neg fun both => mine both.2]
      exact optional_mono (h.globals x) le
  · obtain ⟨u, cell, before⟩ := h.labels c g x found
    rw [other g x (h.located g x (List.mem_of_getElem? found)).2]
    exact ⟨u, cell, optional_mono before le⟩
  · rw [other g "this" isLocal] at found
    exact h.this g u isLocal found

/-- Both maps find the same cell. -/
theorem find? (h : Frames W store s) (names : Names) (x : String) :
    s.find? names x = W.find? names x := by
  unfold Lexical.State.find? World.find?
  refine congrArg (List.find? · names) (funext fun c => ?_)
  cases found : W.cells[c]? with
  | none =>
    have outside : s.cells.size ≤ c := by
      rw [h.count]
      exact List.getElem?_eq_none_iff.1 found
    rw [Array.getElem?_eq_none outside]
    rfl
  | some p =>
    obtain ⟨v, cell, -⟩ := h.labels c p.1 p.2 found
    rw [cell]
    rfl

/-- A cell holds what its frame binds. -/
theorem valueOf? (h : Frames W store s) {c : CellId} {f : FrameId} {x : String}
    (cell : W.cells[c]? = some (f, x)) :
    Option.Rel (SameValue W) (store.getHere? f x) (s.valueOf? c) := by
  obtain ⟨v, found, same⟩ := h.labels c f x cell
  unfold Lexical.State.valueOf?
  rw [found]
  exact same

end Frames

/-! ### The log -/

/-- All that the log says about nodes is in order. -/
structure Logged (W : World) (w : Watched.State) : Prop where
  sites : W.sites = sitesOf w.log
  opened : W.opened = openedOf w.log
  /-- A frame is opened for one scope only. -/
  once : (W.opened.map fun p => p.2.head?).Nodup
  older : ∀ p ∈ W.opened, ∃ f, p.2.head? = some f ∧ f < W.size
  reached : ∀ id name m, .reached id name m ∈ w.log →
    ∃ site ∈ W.sites, site.id = id ∧ site.name = name ∧ Parity w.log m site ∧ Resolved m site
  filed : Filed W.sites w.machine

namespace Logged

variable {W : World} {w : Watched.State}

/-- Only distances and numbers of the machine matter, and of the world only what is logged. -/
theorem keep (h : Logged W w) {W' : World} {m : Machine} (le : W.Le W') (sites : W'.sites = W.sites)
    (opened : W'.opened = W.opened) (distances : m.distances = w.machine.distances)
    (nextNode : m.nextNode = w.machine.nextNode) : Logged W' { w with machine := m } where
  sites := sites.trans h.sites
  opened := opened.trans h.opened
  once := opened ▸ h.once
  older p mem := by
    obtain ⟨f, head, below⟩ := h.older p (opened ▸ mem)
    exact ⟨f, head, Nat.lt_of_lt_of_le below le.size⟩
  reached id name m mem := by
    obtain ⟨site, known, rest⟩ := h.reached id name m mem
    exact ⟨site, sites ▸ known, rest⟩
  filed := by
    rw [sites]
    exact ⟨distances ▸ h.filed.entry, h.filed.distinct, nextNode ▸ h.filed.numbered,
      fun id later => by rw [distances]; exact h.filed.later id (nextNode ▸ later)⟩

theorem openFrame (h : Logged W w) (origin : Origin) (env : Env) {m : Machine}
    (distances : m.distances = w.machine.distances) (nextNode : m.nextNode = w.machine.nextNode) :
    Logged (W.openFrame origin env) ⟨m, .opened origin (W.size :: env) :: w.log⟩ where
  sites := h.sites
  opened := congrArg (List.cons (origin, W.size :: env)) h.opened
  once := by
    refine List.nodup_cons.2 ⟨fun mem => ?_, h.once⟩
    obtain ⟨p, old, same⟩ := List.mem_map.1 mem
    obtain ⟨f, head, below⟩ := h.older p old
    rw [head] at same
    obtain rfl := Option.some.inj same
    exact absurd below (Nat.lt_irrefl _)
  older p mem := by
    rcases List.mem_cons.1 mem with rfl | old
    · exact ⟨W.size, rfl, Nat.lt_succ_self _⟩
    · obtain ⟨f, head, below⟩ := h.older p old
      exact ⟨f, head, Nat.lt_succ_of_lt below⟩
  reached id name m mem := by
    rcases List.mem_cons.1 mem with new | old
    · nomatch new
    · obtain ⟨site, known, sameId, sameName, parity, resolved⟩ := h.reached id name m old
      exact ⟨site, known, sameId, sameName, parity.mono (List.subset_cons_self _ _), resolved⟩
  filed :=
    ⟨distances ▸ h.filed.entry, h.filed.distinct, nextNode ▸ h.filed.numbered,
      fun id later => by rw [distances]; exact h.filed.later id (nextNode ▸ later)⟩

theorem reach (h : Logged W w) {site : Site} (known : site ∈ W.sites)
    (parity : Parity w.log w.machine site) (resolved : Resolved w.machine site) :
    Logged W { w with log := .reached site.id site.name w.machine :: w.log } where
  sites := h.sites
  opened := h.opened
  once := h.once
  older := h.older
  reached id name m mem := by
    have sub := List.subset_cons_self (Watched.Event.reached site.id site.name w.machine) w.log
    rcases List.mem_cons.1 mem with new | old
    · obtain ⟨rfl, rfl, rfl⟩ := Watched.Event.reached.inj new
      exact ⟨site, known, rfl, rfl, parity.mono sub, resolved⟩
    · obtain ⟨site, known, sameId, sameName, parity, resolved⟩ := h.reached id name m old
      exact ⟨site, known, sameId, sameName, parity.mono sub, resolved⟩
  filed := h.filed

end Logged

/-- A state of the watched run and one of the reference run, in a world. -/
structure Related (W : World) (w : Watched.State) (s : Lexical.State) : Prop where
  shared : Shared W w.machine s.machine
  frames : Frames W w.machine.store s
  logged : Logged W w

end Lox.Scoping
