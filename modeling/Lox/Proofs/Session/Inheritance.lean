import Lox.Proofs.Binding.Family
import Lox.Proofs.Run.Dispatch
import Lox.Proofs.Scoping.InStep
import Lox.Proofs.Session.Vetted

/-!
# Methods of classes and superclasses

A method taken of an instance is the one of the nearest class upward; a method of `super` is looked
for upward from the class that the superclass clause had come to when the class around the node was
declared (`session_dispatches`).
-/

namespace Lox

open Binding (programSites distance)
open Watched (Event Known acceptedOf)

/-! ### Nodes tell classes apart -/

theorem ids_sitesOf (log : List Event) :
    (Scoping.sitesOf log).map Binding.Site.id = (acceptedOf log).flatMap Stmt.idsAll := by
  induction log with
  | nil => rfl
  | cons event log ih =>
    cases event with
    | accepted program =>
      have first : (programSites program).map Binding.Site.id = Stmt.idsAll program :=
        Binding.stmtsSites_ids _ _ _ program
      exact (List.map_append).trans (congr (congrArg _ first) ih)
    | opened origin env => exact ih
    | reached id name m => exact ih

/-- In a list without repetitions, a part of it comes after one element only. -/
theorem before_unique {α : Type} {whole part : List α} {x y : α} (distinct : whole.Nodup)
    (nonempty : part ≠ []) (first : x :: part <:+: whole) (second : y :: part <:+: whole) :
    x = y := by
  obtain ⟨z, rest, rfl⟩ := List.exists_cons_of_ne_nil nonempty
  obtain ⟨p, q, rfl⟩ := first
  obtain ⟨p', q', same⟩ := second
  have split : (p ++ [x]) ++ z :: (rest ++ q) = (p' ++ [y]) ++ z :: (rest ++ q') := by
    simpa using same.symm
  have distinct : ((p ++ [x]) ++ z :: (rest ++ q)).Nodup := by simpa using distinct
  have before : z ∉ p ++ [x] := fun mem =>
    (List.nodup_append.1 distinct).2.2 z mem z List.mem_cons_self rfl
  have after : z ∉ rest ++ q := (List.nodup_cons.1 (List.nodup_append.1 distinct).2.1).1
  obtain ⟨fronts, -⟩ := (List.append_cons_inj_of_notMem before after).1 split
  exact List.singleton_inj.1 (List.append_inj_right' fronts rfl)

/-- The superclass of a class is named at one node, if there is a node in its methods. -/
theorem Watched.Known.superclass_unique {A : List (List Stmt)} {name name' : Token}
    {id id' : NodeId} {superclass superclass' : Token} {methods : List FunctionDecl}
    (distinct : (A.flatMap Stmt.idsAll).Nodup) (nonempty : FunctionDecl.idsAll methods ≠ [])
    (h : Known A (.class name (some (.variable id superclass)) methods))
    (k : Known A (.class name' (some (.variable id' superclass')) methods)) : id = id' := by
  have within : ∀ {s : Stmt}, Known A s → s.ids <:+: A.flatMap Stmt.idsAll := by
    intro s known
    obtain ⟨program, mem, part⟩ := known
    obtain ⟨later, earlier, rfl⟩ := List.append_of_mem mem
    refine part.ids_infix.trans ⟨later.flatMap Stmt.idsAll, earlier.flatMap Stmt.idsAll, ?_⟩
    simp
  exact before_unique distinct nonempty (within h) (within k)

/-! ### Dispatch -/

/-- How `super.m` is evaluated on the machine `m` in a class with these methods, whose superclass is
named at the node `up`. -/
structure SuperTaken (log : List Event) (methods : List FunctionDecl) (up : NodeId)
    (superclass : Token) (site : Binding.Site) (keyword method : Token) (m : Machine) (d : Nat)
    (before : Machine) (parent c : Class) (o : ObjectId) : Prop where
  /-- The class was declared: its superclass was looked up, and a scope was opened for its methods. -/
  declared : [.opened (.super methods) (m.env.drop (d + 1)), .reached up superclass.lexeme before] <:+:
    log
  /-- The value of the superclass clause then. -/
  clause : before.valueAt? up superclass.lexeme = some (.callable (.class parent))
  /-- What `this` is there: the node stands in the scope of a method, inside the scope above. -/
  this : distance site.scopes "this" = some d ∧ m.store.getAt? m.env d "this" = some (.instance c o)
  /-- The method of the nearest class from there upward, bound to that instance. -/
  taken : ∀ call, Taken m parent.upward c o method (evaluate call (.super site.id keyword method) m)

/-- How methods are found in a session. -/
structure Dispatches (log : List Event) : Prop where
  /-- A field comes before the method of the nearest class upward. -/
  properties : ∀ call object m n c o, evaluate call object m = .ok (.instance c o) n → ∀ name,
    (∀ v, n.store.field? o name.lexeme = some v → evaluate call (.get object name) m = .ok v n) ∧
    (n.store.field? o name.lexeme = none →
      Taken n c.upward c o name (evaluate call (.get object name) m))
  /-- A class is right above the value of its superclass clause, and of methods of one name it has
  the last. -/
  classes : ∀ call laps name superclass methods m n flow, name.lexeme ≠ "super" →
    execute call laps (.class name superclass methods) m = .ok flow n →
    ∃ parent m', evaluateSuperclass call name superclass m = .ok parent m' ∧
      ∃ k env, Made name parent methods n k env
  /-- Whatever the class of the instance is, a method of `super` is that of the nearest class upward
  from the superclass of the innermost class around the node. -/
  supers : ∀ program, .accepted program ∈ log → ∀ a id keyword method,
    (a, .super id keyword method) ∈ programOccurrences program → ∀ m,
    .reached id keyword.lexeme m ∈ log →
    ∃ k up superclass, a.family = some k ∧ k.superclass = some (.variable up superclass) ∧
      ∃ site ∈ programSites program, site.id = id ∧ ∃ d before parent c o,
        SuperTaken log k.methods up superclass site keyword method m d before parent c o

namespace Scoping

/-- The value that a scope of `super` held when a node was reached. -/
theorem super_value {A : List (List Stmt)} {w : Watched.State} (sound : Watched.Sound A w)
    {id up : NodeId} {name : String} {m before : Machine} (reached : .reached id name m ∈ w.log)
    {methods : List FunctionDecl} {d : Nat} {superclass : Token} {parent : Class}
    (inherited : Watched.Inherited A w methods (m.env.drop d) up superclass before parent)
    (bound : m.store.getAt? m.env d "super" ≠ none) :
    m.store.getAt? m.env d "super" = some (.callable (.class parent)) := by
  obtain ⟨frame, outer, split, -, held⟩ := inherited.kept
  have here : m.env[d]? = some frame := by
    rw [← List.head?_drop, split]
    rfl
  unfold Store.getAt? at bound ⊢
  rw [here, Option.bind_some] at bound ⊢
  obtain ⟨v, found⟩ := Option.ne_none_iff_exists'.1 bound
  rw [← (sound.earlier id name m reached).super frame (lt_size_of_getHere? found)]
  exact held

theorem Logged.site_eq {W : World} {w : Watched.State} (log : Logged W w)
    {site site' : Binding.Site} (known : site ∈ W.sites) (known' : site' ∈ W.sites)
    (same : site.id = site'.id) : site = site' :=
  List.inj_on_of_nodup_map log.filed.distinct known known' same

/-- The superclass that was looked up when a class was declared is that of its clause. -/
theorem Logged.clause_inherited {W : World} {w : Watched.State} (log : Logged W w)
    {A : List (List Stmt)} (sound : Watched.Sound A w) {name superclass superclass' : Token}
    {methods : List FunctionDecl} {up up' : NodeId}
    (mine : Known A (.class name (some (.variable up superclass)) methods))
    (nonempty : FunctionDecl.idsAll methods ≠ []) {site : Binding.Site} (known : site ∈ W.sites)
    (isClause : site.id = up) (named : site.name = superclass.lexeme) {inner : Env}
    {before : Machine} {parent : Class}
    (inherited : Watched.Inherited A w methods inner up' superclass' before parent) :
    up' = up ∧ superclass'.lexeme = superclass.lexeme := by
  obtain ⟨name', declared⟩ := inherited.declared
  have distinct : (A.flatMap Stmt.idsAll).Nodup := by
    rw [← sound.accepted, ← ids_sitesOf, ← log.sites]
    exact log.filed.distinct
  have sameNode : up' = up := declared.superclass_unique distinct nonempty mine
  have looked : .reached up' superclass'.lexeme before ∈ w.log :=
    inherited.directly.subset (List.mem_cons_of_mem _ List.mem_cons_self)
  obtain ⟨site', known', isLooked, named', -⟩ := log.reached _ _ before looked
  obtain rfl := log.site_eq known' known (isLooked.trans (sameNode.trans isClause.symm))
  exact ⟨sameNode, named'.symm.trans named⟩

theorem Related.superTaken {W : World} {w : Watched.State} {s : Lexical.State} (h : Related W w s)
    {A : List (List Stmt)} (accounted : Watched.Accounted A w) {program : List Stmt}
    (accepted : .accepted program ∈ w.log) {a : Around} {id : NodeId} {keyword method : Token}
    (place : (a, .super id keyword method) ∈ programOccurrences program) {m : Machine}
    (reached : .reached id keyword.lexeme m ∈ w.log) :
    ∃ k up superclass, a.family = some k ∧ k.superclass = some (.variable up superclass) ∧
      ∃ site ∈ programSites program, site.id = id ∧ ∃ d before parent c o,
        SuperTaken w.log k.methods up superclass site keyword method m d before parent c o := by
  have log := h.logged
  have sound := accounted.sound
  have mem : program ∈ A := sound.accepted ▸ Watched.mem_acceptedOf.2 accepted
  have vetted := accounted.vetted program mem
  have filed : ∀ site ∈ programSites program, site ∈ W.sites := fun site inside =>
    log.sites ▸ mem_sitesOf.2 ⟨program, accepted, inside⟩
  -- What the walk saw: the class around the node, and its scopes some way out.
  obtain ⟨k, e, family, clause⟩ := vetted.lawful.super a id keyword method place
  obtain ⟨spelled, site, inside, rfl, named, housed⟩ :=
    Binding.program_housed vetted.proper a id keyword method place
  obtain ⟨part, nodes, above, d, this, super⟩ := housed k family
  obtain ⟨inLoop, formed⟩ := part.formed vetted.formed
  obtain ⟨up, superclass, rfl⟩ := formed.1 e clause
  obtain ⟨outer, origin⟩ := super (clause ▸ rfl)
  -- The machine is there, in a scope that was opened for the methods of this class.
  obtain ⟨site', known, sameId, -, parity, resolved⟩ := log.reached _ _ m reached
  obtain rfl := log.site_eq known (filed site inside) sameId
  rw [← named] at outer
  have recorded := parity.entry.trans outer
  obtain ⟨up', superclass', before, parent, inherited⟩ :=
    sound.supers _ _ (parity.instances (d + 1) _ origin)
  obtain ⟨notPending, c, o, receiver⟩ := resolved.receiver (d + 1) outer named
  have bound : m.store.getAt? m.env (d + 1) "super" ≠ none := fun missing =>
    notPending ((resolved.missing (d + 1) outer).1 (named ▸ missing)).2
  have found := super_value sound reached inherited bound
  have mine : Known A (.class k.name (some (.variable up superclass)) k.methods) :=
    ⟨program, mem, clause ▸ part⟩
  obtain ⟨upper, inside', isClause, upperName⟩ := above up superclass clause
  obtain ⟨rfl, sameName⟩ := log.clause_inherited sound mine
    (List.ne_nil_of_mem (nodes List.mem_cons_self)) (filed upper inside') isClause upperName inherited
  have declared := inherited.directly
  have value := inherited.found
  rw [sameName] at declared value
  refine ⟨k, up', superclass, family, clause, site', inside, rfl, d, before, parent, c, o, declared,
    value, ⟨this, receiver⟩, fun call => ?_⟩
  exact superMethod_taken recorded (spelled ▸ found) receiver method

end Scoping

/-- In every session methods are found upward from the class of the instance, and those of `super`
upward from the class that the superclass clause had come to. -/
theorem session_dispatches (input : List UInt8) (sink : Sink) (clock : Nat → Float)
    (texts : List (Nat × String)) :
    Dispatches ((Watched.State.start input sink clock).session texts).log where
  properties _ _ _ _ _ _ value name := get_taken value name
  classes _ _ _ _ _ _ _ _ other ran := by
    obtain ⟨_, _, declared, rest⟩ := Grammar.bind_ok ran
    cases rest
    exact declareClass_made other declared
  supers program accepted a id keyword method place m reached := by
    obtain ⟨W, s, related, -⟩ := (Scoping.paused_start input sink clock).session texts
    obtain ⟨A, accounted⟩ := Watched.session_accounted input sink clock texts
    exact related.superTaken accounted accepted place reached

/-- Whether a program is accepted in which such a place occurs. -/
def occursWhere (log : List Watched.Event) (p : Around × Occurrence → Bool) : Bool :=
  log.any fun
    | .accepted program => (programOccurrences program).any p
    | _ => false

theorem exists_of_occursWhere {log : List Watched.Event} {p : Around × Occurrence → Bool}
    (h : occursWhere log p = true) :
    ∃ program, .accepted program ∈ log ∧ ∃ place ∈ programOccurrences program, p place = true := by
  obtain ⟨event, mem, occurs⟩ := List.any_eq_true.1 h
  cases event with
  | accepted program => exact ⟨program, mem, List.any_eq_true.1 occurs⟩
  | opened | reached => cases occurs

def isNil : Option Value → Bool
  | some .nil => true
  | _ => false

theorem eq_of_isNil {v : Option Value} (h : isNil v = true) : v = some .nil := by
  unfold isNil at h
  split at h
  · rfl
  · cases h

/-- Whether a method of the superclass is taken there while the global `x` is `nil`. -/
def takesWithout (log : List Watched.Event) (x : String) : Around × Occurrence → Bool
  | (_, .super id keyword _) => Scoping.reachedWhere log id keyword.lexeme fun m =>
      isNil (m.store.get? globalEnv x)
  | _ => false

theorem exists_of_takesWithout {log : List Watched.Event} {x : String} {p : Around × Occurrence}
    (h : takesWithout log x p = true) :
    ∃ a id keyword method m, p = (a, .super id keyword method) ∧
      .reached id keyword.lexeme m ∈ log ∧ m.store.get? globalEnv x = some .nil := by
  unfold takesWithout at h
  split at h
  · obtain ⟨m, reached, without⟩ := Scoping.exists_of_reachedWhere h
    exact ⟨_, _, _, _, m, rfl, reached, eq_of_isNil without⟩
  · cases h

/-- A function in a method of `B` is called on an instance of `C`, when `A` is no class any more. -/
theorem session_dispatches_rebound :
    let log := ((Watched.State.start [] .unlimited fun _ => 0).session
      [(5, "class A \x7b m() \x7b return true; \x7d \x7d
        class B < A \x7b m() \x7b fun f() \x7b return super.m(); \x7d return f; \x7d \x7d
        class C < B \x7b \x7d"), (5, "var f = C().m(); A = nil; f();")]).log
    ∃ program a id keyword method m, .accepted program ∈ log ∧
      (a, .super id keyword method) ∈ programOccurrences program ∧
      .reached id keyword.lexeme m ∈ log ∧ m.store.get? globalEnv "A" = some .nil ∧
      ∃ k up superclass, a.family = some k ∧ k.superclass = some (.variable up superclass) ∧
        ∃ site ∈ programSites program, site.id = id ∧ ∃ d before parent c o,
          SuperTaken log k.methods up superclass site keyword method m d before parent c o := by
  intro log
  have check : occursWhere log (takesWithout log "A") = true := by decide +kernel
  obtain ⟨program, accepted, place, inside, check⟩ := exists_of_occursWhere check
  obtain ⟨a, id, keyword, method, m, rfl, reached, rebound⟩ := exists_of_takesWithout check
  exact ⟨program, a, id, keyword, method, m, accepted, inside, reached, rebound,
    (session_dispatches _ _ _ _).supers program accepted a id keyword method inside m reached⟩

end Lox
