import Lox.Proofs.Run.Dispatch
import Lox.Proofs.Run.Holding
import Lox.Proofs.Run.Trace

/-!
# The graph of scopes and classes

Values refer to each other in circles, through bindings, fields and elements. Two kinds of links do
not: the one from a scope to the scope around it, and the one from a class to its superclass. A
graph has these links as they were made. It only grows (`Graph.Later`), each link leads to what was
made before, and so whoever follows them comes to an end (`Graph.settled`). Whatever runs keeps to a
graph (`linked`).
-/

namespace Lox

open EStateM (Result)

/-! ### Lists that grow -/

section Growth

variable {α : Type} {l l' : List α} {i : Nat} {a b : α}

theorem getElem?_later (h : l <+: l') (found : l[i]? = some a) : l'[i]? = some a := by
  obtain ⟨more, rfl⟩ := h
  rw [List.getElem?_append_left (List.getElem?_eq_some_iff.1 found).1]
  exact found

theorem of_getElem?_concat (found : (l ++ [a])[i]? = some b) :
    l[i]? = some b ∨ i = l.length ∧ a = b := by
  rw [List.getElem?_append] at found
  split at found
  · exact .inl found
  · have last := List.getElem?_eq_some_iff.1 found
    have zero : i - l.length = 0 := Nat.lt_one_iff.1 last.1
    rw [zero] at found
    exact .inr ⟨by omega, Option.some.inj found⟩

end Growth

/-! ### Graphs -/

/-- An environment that goes from link to link, up to the globals. -/
inductive Chain (scopes : List (Option FrameId)) : Env → Prop
  | globals : Chain scopes [globalFrame]
  | inner {f g : FrameId} {env : Env} (link : scopes[f]? = some (some g))
      (outer : Chain scopes (g :: env)) : Chain scopes (f :: g :: env)

theorem Chain.mono {scopes scopes' : List (Option FrameId)} (later : scopes <+: scopes') {env : Env}
    (h : Chain scopes env) : Chain scopes' env := by
  induction h with
  | globals => exact .globals
  | inner link _ ih => exact .inner (getElem?_later later link) ih

theorem Chain.exists_cons {scopes : List (Option FrameId)} {env : Env} (h : Chain scopes env) :
    ∃ f outer, env = f :: outer := by
  cases h with
  | globals | inner => exact ⟨_, _, rfl⟩

structure Graph where
  /-- For each scope the one around it. The globals have none. -/
  scopes : List (Option FrameId)
  /-- What has each identity, if it is a class. -/
  callables : List (Option Class)
  globals : scopes[globalFrame]? = some none
  outward : ∀ {f g : FrameId}, scopes[f]? = some (some g) → g < f
  identity : ∀ {i : Identity} {c : Class}, callables[i]? = some (some c) → c.id = i
  upward : ∀ {i : Identity} {c p : Class}, callables[i]? = some (some c) → c.superclass = some p →
    p.id < i ∧ callables[p.id]? = some (some p)
  methods : ∀ {i : Identity} {c : Class} {entry : String × Method} {closure : Closure},
    callables[i]? = some (some c) → entry ∈ c.methods → entry.2 = .declared closure →
    Chain scopes closure.env

namespace Graph

section Contents

variable (G : Graph)

def Chain (env : Env) : Prop := Lox.Chain G.scopes env

/-- The class is the one that has its identity. -/
def Knows (c : Class) : Prop := G.callables[c.id]? = some (some c)

/-- Whatever the value refers to is in the graph. -/
def Holds : Value → Prop
  | .callable (.function _ closure) => G.Chain closure.env
  | .callable (.class c) => G.Knows c
  | .instance c _ => G.Knows c
  | _ => True

/-- All that is held anywhere in the machine is in the graph. -/
structure Describes (m : Machine) : Prop where
  env : G.Chain m.env
  store : m.store.All G.Holds

/-- Nothing else is in the graph than the scopes and callables made so far. -/
structure Fits (m : Machine) : Prop extends G.Describes m where
  scopes : G.scopes.length = m.store.frames.size
  callables : G.callables.length = m.nextIdentity

/-- All that is in the hands of what is about to be done. -/
def Involves : Act → Prop
  | .function closure arguments => G.Chain closure.env ∧ ∀ v ∈ arguments, G.Holds v
  | .native _ _ arguments => ∀ v ∈ arguments, G.Holds v
  | .construct c arguments => G.Knows c ∧ ∀ v ∈ arguments, G.Holds v
  | .statement _ | .expression _ | .output _ => True

structure Sees (k : Moment) : Prop where
  machine : G.Describes k.machine
  event : G.Involves k.event

end Contents

/-! ### Growth -/

/-- What was linked is linked in the same way. -/
structure Later (G H : Graph) : Prop where
  scopes : G.scopes <+: H.scopes
  callables : G.callables <+: H.callables

namespace Later

variable {G H K : Graph}

theorem refl (G : Graph) : G.Later G := ⟨List.prefix_refl _, List.prefix_refl _⟩

theorem trans (h : G.Later H) (k : H.Later K) : G.Later K :=
  ⟨h.scopes.trans k.scopes, h.callables.trans k.callables⟩

variable (h : G.Later H)

include h

theorem chain {env : Env} (chain : G.Chain env) : H.Chain env := Chain.mono h.scopes chain

theorem knows {c : Class} (knows : G.Knows c) : H.Knows c := getElem?_later h.callables knows

theorem holds {v : Value} (holds : G.Holds v) : H.Holds v := by
  cases v with
  | callable c =>
    cases c with
    | function id closure => exact h.chain holds
    | native => trivial
    | «class» c => exact h.knows holds
  | «instance» c o => exact h.knows holds
  | nil | bool | number | string => trivial

theorem describes {m : Machine} (describes : G.Describes m) : H.Describes m :=
  ⟨h.chain describes.env, describes.store.mono fun _ => h.holds⟩

theorem involves {event : Act} (involves : G.Involves event) : H.Involves event := by
  cases event with
  | function closure arguments =>
    exact ⟨h.chain involves.1, fun v mem => h.holds (involves.2 v mem)⟩
  | native op receiver arguments => exact fun v mem => h.holds (involves v mem)
  | construct c arguments => exact ⟨h.knows involves.1, fun v mem => h.holds (involves.2 v mem)⟩
  | statement | expression | output => trivial

theorem sees {k : Moment} (sees : G.Sees k) : H.Sees k :=
  ⟨h.describes sees.machine, h.involves sees.event⟩

end Later

section Additions

variable (G : Graph)

theorem inside {f : FrameId} {env : Env} (h : G.Chain (f :: env)) : f < G.scopes.length := by
  cases h with
  | globals => exact (List.getElem?_eq_some_iff.1 G.globals).1
  | inner link => exact (List.getElem?_eq_some_iff.1 link).1

/-- A new scope inside another one. -/
def addScope {g : FrameId} {env : Env} (outer : G.Chain (g :: env)) : Graph where
  scopes := G.scopes ++ [some g]
  callables := G.callables
  globals := getElem?_later (List.prefix_append _ _) G.globals
  outward link := by
    obtain old | ⟨rfl, same⟩ := of_getElem?_concat link
    · exact G.outward old
    · cases same
      exact G.inside outer
  identity := G.identity
  upward := G.upward
  methods known mem declared := (G.methods known mem declared).mono (List.prefix_append _ _)

/-- What a class is made of that comes to a graph. -/
structure Admits (c : Class) : Prop where
  fresh : c.id = G.callables.length
  superclass : ∀ p, c.superclass = some p → G.Knows p
  methods : ∀ entry ∈ c.methods, ∀ closure, entry.2 = .declared closure → G.Chain closure.env

theorem admits_none (c : Class) (absent : none = some c) : G.Admits c := by
  cases absent

/-- A new identity, for a class or for something else. -/
def addCallable (o : Option Class) (admits : ∀ c, o = some c → G.Admits c) : Graph where
  scopes := G.scopes
  callables := G.callables ++ [o]
  globals := G.globals
  outward := G.outward
  identity known := by
    obtain old | ⟨rfl, new⟩ := of_getElem?_concat known
    · exact G.identity old
    · exact (admits _ new).fresh
  upward {i c p} known is := by
    have later : G.callables <+: G.callables ++ [o] := List.prefix_append _ _
    obtain old | ⟨rfl, new⟩ := of_getElem?_concat known
    · obtain ⟨before, known⟩ := G.upward old is
      exact ⟨before, getElem?_later later known⟩
    · have known := (admits c new).superclass p is
      exact ⟨(List.getElem?_eq_some_iff.1 known).1, getElem?_later later known⟩
  methods known mem declared := by
    obtain old | ⟨-, new⟩ := of_getElem?_concat known
    · exact G.methods old mem declared
    · exact (admits _ new).methods _ mem _ declared

variable {G}

theorem later_addScope {g : FrameId} {env : Env} (outer : G.Chain (g :: env)) :
    G.Later (G.addScope outer) :=
  ⟨List.prefix_append _ _, List.prefix_refl _⟩

theorem later_addCallable {o : Option Class} (admits : ∀ c, o = some c → G.Admits c) :
    G.Later (G.addCallable o admits) :=
  ⟨List.prefix_refl _, List.prefix_append _ _⟩

theorem chain_addScope {g : FrameId} {env : Env} (outer : G.Chain (g :: env)) :
    (G.addScope outer).Chain (G.scopes.length :: g :: env) := by
  refine .inner ?_ ((later_addScope outer).chain outer)
  show (G.scopes ++ [some g])[G.scopes.length]? = some (some g)
  rw [List.getElem?_concat_length]

theorem knows_addCallable {c : Class} (admits : ∀ d, some c = some d → G.Admits d) :
    (G.addCallable (some c) admits).Knows c := by
  show (G.callables ++ [some c])[c.id]? = some (some c)
  rw [(admits c rfl).fresh, List.getElem?_concat_length]

end Additions

/-! ### Following links -/

section Links

variable (G : Graph)

/-- Goes from a scope outward until one has an answer. There is no result if it is still on its way
after so many scopes. -/
def search {α : Type} (look : FrameId → Option α) : Nat → FrameId → Option (Option α)
  | 0, _ => none
  | steps + 1, f =>
    match look f, G.scopes[f]? with
    | some a, _ => some (some a)
    | none, some (some g) => search look steps g
    | none, _ => some none

/-- The scope so many links out, if there are as many. -/
def ancestor : Nat → FrameId → Option FrameId
  | 0, f => some f
  | hops + 1, f =>
    match G.scopes[f]? with
    | some (some g) => ancestor hops g
    | _ => none

/-- Goes from the class of an identity upward until one has the method. -/
def method (name : String) : Nat → Identity → Option (Option Method)
  | 0, _ => none
  | steps + 1, i =>
    match G.callables[i]? with
    | some (some c) =>
      match c.methods.lookup name, c.superclass with
      | some method, _ => some (some method)
      | none, some p => method name steps p.id
      | none, none => some none
    | _ => some none

variable {G}

theorem search_eq {α : Type} (look : FrameId → Option α) {steps : Nat} {f : FrameId} {env : Env}
    (h : G.Chain (f :: env)) (enough : f < steps) :
    G.search look steps f = some ((f :: env).findSome? look) := by
  induction steps generalizing f env with
  | zero => exact absurd enough (Nat.not_lt_zero f)
  | succ steps ih =>
    rw [search, List.findSome?_cons]
    cases look f with
    | some a => rfl
    | none =>
      cases h with
      | globals => rw [G.globals]; rfl
      | inner link outer =>
        rw [link]
        exact ih outer (Nat.lt_of_lt_of_le (G.outward link) (Nat.le_of_lt_succ enough))

theorem ancestor_eq {hops : Nat} {f : FrameId} {env : Env} (h : G.Chain (f :: env)) :
    G.ancestor hops f = (f :: env)[hops]? := by
  induction hops generalizing f env with
  | zero => rfl
  | succ hops ih =>
    rw [ancestor, List.getElem?_cons_succ]
    cases h with
    | globals => rw [G.globals]; rfl
    | inner link outer =>
      rw [link]
      exact ih outer

theorem method_eq (name : String) {steps : Nat} {c : Class} (h : G.Knows c) (enough : c.id < steps) :
    G.method name steps c.id = some (c.findMethod? name) := by
  induction steps generalizing c with
  | zero => exact absurd enough (Nat.not_lt_zero _)
  | succ steps ih =>
    have known : G.callables[c.id]? = some (some c) := h
    rw [method, known]
    obtain ⟨id, className, superclass, methods⟩ := c
    cases superclass with
    | none =>
      dsimp only
      rw [Class.findMethod?]
      cases methods.lookup name <;> rfl
    | some p =>
      dsimp only
      rw [Class.findMethod?]
      cases methods.lookup name with
      | some method => rfl
      | none =>
        obtain ⟨before, above⟩ := G.upward known rfl
        exact ih above (Nat.lt_of_lt_of_le before (Nat.le_of_lt_succ enough))

/-- A class comes first of those from it upward. -/
theorem upward_le (c : Class) (descends : c.upward.Pairwise (·.id > ·.id)) :
    ∀ k ∈ c.upward, k.id ≤ c.id := by
  obtain ⟨id, name, superclass, methods⟩ := c
  cases superclass with
  | none => exact List.forall_mem_singleton.2 (Nat.le_refl id)
  | some p =>
    exact List.forall_mem_cons.2 ⟨Nat.le_refl id, fun k mem =>
      Nat.le_of_lt (List.rel_of_pairwise_cons descends mem)⟩

/-- The link of a scope does not depend on who holds it. -/
theorem chain_unique {f : FrameId} {env env' : Env} (h : G.Chain (f :: env))
    (h' : G.Chain (f :: env')) : env = env' := by
  generalize long : f :: env = whole at h
  induction h generalizing f env env' with
  | globals =>
    cases long
    cases h' with
    | globals => rfl
    | inner link => cases G.globals.symm.trans link
  | inner link _ ih =>
    cases long
    cases h' with
    | globals => cases G.globals.symm.trans link
    | inner link' outer' =>
      cases link.symm.trans link'
      rw [ih outer' rfl]

theorem chain_descends {env : Env} (h : G.Chain env) : env.Pairwise (· > ·) := by
  induction h with
  | globals => exact List.pairwise_singleton _ _
  | @inner f g env link _ ih =>
    refine List.pairwise_cons.2 ⟨fun k mem => ?_, ih⟩
    obtain rfl | further := List.mem_cons.1 mem
    · exact G.outward link
    · exact Nat.lt_trans (List.rel_of_pairwise_cons ih further) (G.outward link)

theorem chain_ends {env : Env} (h : G.Chain env) : env.getLast? = some globalFrame := by
  induction h with
  | globals => rfl
  | inner _ _ ih => exact ih

theorem knows_upward : (c : Class) → G.Knows c → ∀ k ∈ c.upward, G.Knows k
  | ⟨_, _, none, _⟩, known => List.forall_mem_singleton.2 known
  | ⟨_, _, some p, _⟩, known =>
    List.forall_mem_cons.2 ⟨known, knows_upward p (G.upward known rfl).2⟩

theorem upward_descends : (c : Class) → G.Knows c → c.upward.Pairwise (·.id > ·.id)
  | ⟨_, _, none, _⟩, _ => List.pairwise_singleton _ _
  | ⟨id, name, some p, methods⟩, known => by
    obtain ⟨before, above⟩ := G.upward known rfl
    have ih := upward_descends p above
    refine List.pairwise_cons.2 ⟨fun k mem => ?_, ih⟩
    show k.id < id
    exact Nat.lt_of_le_of_lt (upward_le p ih k mem) before

theorem knows_method {c : Class} {entry : String × Method} {closure : Closure} (h : G.Knows c)
    (mem : entry ∈ c.methods) (declared : entry.2 = .declared closure) : G.Chain closure.env :=
  G.methods h mem declared

end Links

/-- What follows of environments and classes that are in a graph. -/
structure Settled (G : Graph) : Prop where
  /-- No scope is twice on the way to the globals. -/
  ends : ∀ {env}, G.Chain env → env.Pairwise (· > ·) ∧ env.getLast? = some globalFrame
  /-- A scope has the same scopes around it for all who hold it. -/
  enclosing : ∀ {f env env'}, G.Chain (f :: env) → G.Chain (f :: env') → env = env'
  /-- A class has the same superclass and methods for all who hold it. -/
  unchanged : ∀ {c d}, G.Knows c → G.Knows d → c.id = d.id → c = d
  superclasses : ∀ {c}, G.Knows c → c.upward.Pairwise (·.id > ·.id) ∧ ∀ k ∈ c.upward, G.Knows k
  methods : ∀ {c : Class} {entry closure}, G.Knows c → entry ∈ c.methods →
    entry.2 = .declared closure → G.Chain closure.env
  get : ∀ (s : Store) {f env} name, G.Chain (f :: env) →
    G.search (s.getHere? · name) (f + 1) f = some (s.get? (f :: env) name)
  assign : ∀ (s : Store) {f env} name, G.Chain (f :: env) →
    G.search (Option.guard (s.binds name)) (f + 1) f = some (s.owner? (f :: env) name)
  ancestor : ∀ {f env} hops, G.Chain (f :: env) → G.ancestor hops f = (f :: env)[hops]?
  findMethod : ∀ {c} name, G.Knows c → G.method name (c.id + 1) c.id = some (c.findMethod? name)

theorem settled (G : Graph) : G.Settled where
  ends h := ⟨chain_descends h, chain_ends h⟩
  enclosing := chain_unique
  unchanged {c d} known known' same := by
    have known : G.callables[c.id]? = some (some c) := known
    rw [same] at known
    exact Option.some.inj (Option.some.inj (known.symm.trans known'))
  superclasses known := ⟨upward_descends _ known, knows_upward _ known⟩
  methods := knows_method
  get _ _ _ _ h := search_eq _ h (Nat.lt_succ_self _)
  assign s f env name h := by
    rw [search_eq _ h (Nat.lt_succ_self _), List.findSome?_guard]
    rfl
  ancestor _ h := ancestor_eq h
  findMethod name h := method_eq name h (Nat.lt_succ_self _)

end Graph

end Lox
