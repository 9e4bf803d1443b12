import Mathlib.Data.List.Nodup
import Lox.Proofs.Binding.Walk
import Lox.Proofs.Grammar.Numbering
import Lox.Proofs.Scoping.Parity

/-!
# The table of distances

What the table has for a node after the walk over a program. A program whose nodes got new numbers
does not disturb what is known of the others (`Filed.accept`, `Filed.reject`).
-/

namespace Lox.Scoping

open Binding (Walk Site Origin distance recordsOf programSites)

/-- The latest record of a node is the one that counts. -/
theorem getElem?_records (records : List (NodeId × Nat)) (table : Std.TreeMap NodeId Nat)
    (id : NodeId) :
    (records.foldr (fun (id, distance) table => table.insert id distance) table)[id]? =
      (records.lookup id).or (table[id]?) := by
  induction records with
  | nil => rfl
  | cons record records ih =>
    obtain ⟨key, d⟩ := record
    rw [List.foldr_cons, Std.TreeMap.getElem?_insert, ih, List.lookup_cons]
    by_cases same : key = id
    · rw [if_pos (Std.LawfulEqCmp.compare_eq_iff_eq.2 same), same, beq_self_eq_true]
      rfl
    · rw [if_neg fun equal => same (Std.LawfulEqCmp.compare_eq_iff_eq.1 equal),
        beq_false_of_ne (Ne.symm same)]

theorem lookup_none {records : List (NodeId × Nat)} {id : NodeId}
    (absent : ∀ p ∈ records, p.1 ≠ id) : records.lookup id = none := by
  rw [List.lookup_eq_none_iff]
  intro p mem
  exact bne_iff_ne.2 (Ne.symm (absent p mem))

theorem recordsOf_cons (site : Site) (sites : List Site) :
    recordsOf (site :: sites) = recordsOf sites ++ site.record?.toList := by
  unfold recordsOf
  rw [List.filterMap_cons]
  cases site.record? with
  | none => simp
  | some record => simp

theorem mem_recordsOf {sites : List Site} {p : NodeId × Nat} (mem : p ∈ recordsOf sites) :
    ∃ site ∈ sites, site.id = p.1 := by
  unfold recordsOf at mem
  obtain ⟨site, known, record⟩ := List.mem_filterMap.1 (List.mem_reverse.1 mem)
  obtain ⟨d, -, rfl⟩ := Option.map_eq_some_iff.1 record
  exact ⟨site, known, rfl⟩

/-- The records of sites with different numbers tell their distances. -/
theorem lookup_recordsOf {sites : List Site} (distinct : (sites.map Site.id).Nodup) {site : Site}
    (known : site ∈ sites) :
    (recordsOf sites).lookup site.id = distance site.scopes site.name := by
  induction sites with
  | nil => exact absurd known List.not_mem_nil
  | cons first sites ih =>
    obtain ⟨other, distinct⟩ := List.nodup_cons.1 distinct
    rw [recordsOf_cons, List.lookup_append]
    rcases List.mem_cons.1 known with rfl | later
    · have none : (recordsOf sites).lookup site.id = none := by
        refine lookup_none fun p mem same => other ?_
        obtain ⟨s, known, mine⟩ := mem_recordsOf mem
        exact List.mem_map.2 ⟨s, known, mine.trans same⟩
      rw [none, Option.none_or]
      unfold Site.record?
      cases distance site.scopes site.name with
      | none => rfl
      | some d => simp
    · rw [ih distinct later]
      have none : first.record?.toList.lookup site.id = none := by
        refine lookup_none fun p mem same => other ?_
        obtain ⟨d, -, rfl⟩ := Option.map_eq_some_iff.1 (Option.mem_toList.1 mem)
        exact List.mem_map.2 ⟨site, later, same.symm⟩
      rw [none, Option.or_none]

theorem programSites_ids (program : List Stmt) :
    (programSites program).map Site.id = Stmt.idsAll program :=
  Binding.stmtsSites_ids [] .program .start program

/-- The walk records nodes of the program only. -/
theorem records_ids {program : List Stmt} {p : NodeId × Nat}
    (mem : p ∈ (Binding.program program).records) : p.1 ∈ Stmt.idsAll program := by
  obtain ⟨extra, same, known, -⟩ := (Binding.stmts_walked [] .program .start program).records
  have empty : Walk.start.records = [] := rfl
  rw [empty, List.append_nil] at same
  rw [Binding.program_eq, same] at mem
  rw [← programSites_ids]
  exact known p mem

section Programs

variable {sites : List Site} {m : Machine} {program : List Stmt} {high : Nat}

/-- A program with new numbers leaves the table as it was for all others. -/
theorem bind_other (good : Fresh m.nextNode high (Stmt.idsAll program)) {id : NodeId}
    (other : id < m.nextNode ∨ high ≤ id) :
    (({ m with nextNode := high } : Machine).bind program).2.distances[id]? = m.distances[id]? := by
  show (List.foldr _ m.distances (Binding.program program).records)[id]? = _
  rw [getElem?_records, lookup_none, Option.none_or]
  intro p mem same
  have bounds := good.between p.1 (records_ids mem)
  rcases other with below | above
  · exact absurd bounds.1 (Nat.not_le.2 (same ▸ below))
  · exact absurd bounds.2 (Nat.not_lt.2 (same ▸ above))

theorem Filed.renumber (h : Filed sites m) (le : m.nextNode ≤ high) :
    Filed sites { m with nextNode := high } where
  entry := h.entry
  distinct := h.distinct
  numbered site known := Nat.lt_of_lt_of_le (h.numbered site known) le
  later id above := h.later id (Nat.le_trans le above)

theorem Filed.reject (h : Filed sites m) (le : m.nextNode ≤ high)
    (good : Fresh m.nextNode high (Stmt.idsAll program)) :
    Filed sites (({ m with nextNode := high } : Machine).bind program).2 where
  entry site known := by
    rw [bind_other good (.inl (h.numbered site known))]
    exact h.entry site known
  distinct := h.distinct
  numbered site known := Nat.lt_of_lt_of_le (h.numbered site known) le
  later id above := by
    rw [bind_other good (.inr above)]
    exact h.later id (Nat.le_trans le above)

theorem Filed.accept (h : Filed sites m) (le : m.nextNode ≤ high)
    (good : Fresh m.nextNode high (Stmt.idsAll program))
    (clean : (Binding.program program).faults = []) :
    Filed (programSites program ++ sites)
      (({ m with nextNode := high } : Machine).bind program).2 where
  entry site known := by
    rcases List.mem_append.1 known with mine | old
    · show (List.foldr _ m.distances (Binding.program program).records)[site.id]? = _
      have id : site.id ∈ Stmt.idsAll program := by
        rw [← programSites_ids]
        exact List.mem_map_of_mem mine
      have none : m.distances[site.id]? = none := h.later _ (good.between _ id).1
      have distinct := (programSites_ids program).symm ▸ good.distinct
      rw [getElem?_records, Binding.program_records clean, lookup_recordsOf distinct mine, none,
        Option.or_none]
    · exact (h.reject le good).entry site old
  distinct := by
    rw [List.map_append, programSites_ids]
    refine List.nodup_append.2 ⟨good.distinct, h.distinct, fun i mine j old same => ?_⟩
    obtain ⟨site, known, rfl⟩ := List.mem_map.1 old
    have new := (good.between i mine).1
    have before := h.numbered site known
    exact absurd before (Nat.not_lt.2 (same ▸ new))
  numbered site known := by
    rcases List.mem_append.1 known with mine | old
    · refine (good.between site.id ?_).2
      rw [← programSites_ids]
      exact List.mem_map_of_mem mine
    · exact (h.reject le good).numbered site old
  later := (h.reject le good).later

end Programs

end Lox.Scoping
