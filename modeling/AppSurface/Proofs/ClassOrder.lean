import AppSurface.Corpus
import AppSurface.Proofs.StableOrder
import Mathlib.Data.String.Basic

namespace AppSurface.Corpus

variable {given sorted : List ClassUnit} {resources : List Resource}

def Ascending (classes : List ClassUnit) : Prop :=
  classes.Pairwise fun a b => a.fullName ≤ b.fullName

/-- The stable sort of some classes by full name. -/
structure NameOrder (given sorted : List ClassUnit) : Prop where
  perm : sorted.Perm given
  ascending : Ascending sorted
  stable (name : String) :
    sorted.filter (fun u => u.fullName == name) = given.filter fun u => u.fullName == name

theorem classes_perm : (ofParts given resources).classes.Perm given := List.mergeSort_perm _ _

theorem classes_ascending : Ascending (ofParts given resources).classes :=
  pairwise_mergeSort_key ClassUnit.fullName given

theorem filter_classes (name : String) :
    (ofParts given resources).classes.filter (fun u => u.fullName == name) =
      given.filter fun u => u.fullName == name :=
  filter_mergeSort_key ClassUnit.fullName given name

theorem nameOrder : NameOrder given (ofParts given resources).classes :=
  ⟨classes_perm, classes_ascending, filter_classes⟩

/-- Classes that stand in order already are left as they are. -/
theorem ofParts_of_ascending (ascending : Ascending given) :
    ofParts given resources = ⟨given, resources⟩ := by
  simp only [ofParts, mk.injEq, and_true]
  exact List.mergeSort_of_pairwise (ascending.imp decide_eq_true)

end AppSurface.Corpus
