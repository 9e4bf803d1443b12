import Lox.Proofs.Run.Likewise
import Lox.Proofs.Scoping.Relation

/-!
# Steps on what is shared

In a world, the machines of both runs are alike (`shared_iff`), so that steps beside the frames do
the same to them, above all the supplied routines (`callNative_alike`).
-/

namespace Lox.Scoping

variable {W : World}

theorem sameObject_iff {o o' : Object} : SameObject W o o' ↔ LikeObject W.likeness o o' := by
  have values : SameValue W = LikeValue W.likeness :=
    funext₂ fun _ _ => propext sameValue_iff
  constructor
  · intro h
    exact ⟨values ▸ h.fields, values ▸ h.slots⟩
  · intro h
    exact ⟨values ▸ h.fields, values ▸ h.slots⟩

theorem shared_iff {m m' : Machine} : Shared W m m' ↔ LikeState W.likeness m m' := by
  constructor
  · intro h
    exact { h with objects := fun i => rel_mono (h.objects i) fun _ _ => sameObject_iff.1 }
  · intro h
    exact { h with objects := fun i => rel_mono (h.objects i) fun _ _ => sameObject_iff.2 }

theorem Shared.field? {m m' : Machine} (h : Shared W m m') (object : ObjectId) (name : String) :
    Option.Rel (SameValue W) (m.store.field? object name) (m'.store.field? object name) :=
  rel_mono ((shared_iff.1 h).field? object name) fun _ _ => sameValue_iff.2

theorem orFault_alike (line : Nat) {r r' : Except RuntimeFault Value} (h : SameResult W r r') :
    Likewise W.likeness (orFault line r) (orFault line r') (SameValue W) := by
  cases h with
  | ok same => exact Likewise.pure same
  | error cause => exact fail_likewise line cause

theorem setField_alike {ε : Type} (object : ObjectId) (name : String) {v v' : Value}
    (same : SameValue W v v') :
    Likewise W.likeness (modify (·.mapStore (·.setField object name v)) : EStateM ε Machine Unit)
      (modify (·.mapStore (·.setField object name v'))) fun _ _ => True :=
  setField_likewise object name (sameValue_iff.1 same)

theorem callNative_alike (op : Native) (object : Option ObjectId) {vs vs' : List Value}
    (h : List.Forall₂ (SameValue W) vs vs') (paren : Token) :
    Likewise W.likeness (callNative op object vs paren) (callNative op object vs' paren)
      (SameValue W) :=
  (callNative_likewise op object (h.imp fun _ _ => sameValue_iff.1) paren).mono
    fun _ _ => sameValue_iff.2

end Lox.Scoping
