import AppSurface.Proofs.CommandRun
import Mathlib.Data.List.Induction

namespace AppSurface

variable {c : Component} {cs : List Component} {type : ComponentType}
  {g : ComponentType × List Component} {groups : List (ComponentType × List Component)}

namespace ComponentType

theorem rank_inj {s t : ComponentType} (h : s.rank = t.rank) : s = t := by
  cases s <;> cases t <;> first | rfl | cases h

end ComponentType

/-- The groups stand in ascending order of kinds, and each has components, all of its kind. -/
structure Grouped (groups : List (ComponentType × List Component)) : Prop where
  ascending : groups.Pairwise fun g h => g.1.rank < h.1.rank
  own : ∀ g ∈ groups, g.2 ≠ [] ∧ ∀ c ∈ g.2, c.type = g.1

namespace Grouped

/-- A component comes to the end of the group of its kind, between the groups of the kinds before it
and those of the kinds behind it. -/
theorem addTo_eq (h : Grouped groups) (c : Component) : ∃ before group after,
    (groups = before ++ (c.type, group) :: after ∨ groups = before ++ after ∧ group = []) ∧
      (∀ g ∈ before, g.1.rank < c.type.rank) ∧ (∀ g ∈ after, c.type.rank < g.1.rank) ∧
      c.addTo groups = before ++ (c.type, group ++ [c]) :: after := by
  obtain ⟨ascending, -⟩ := h
  induction groups with
  | nil => exact ⟨[], [], [], .inr ⟨rfl, rfl⟩, by simp, by simp, rfl⟩
  | cons e groups ih =>
    obtain ⟨type, group⟩ := e
    obtain ⟨first, rest⟩ := List.pairwise_cons.mp ascending
    by_cases same : c.type = type
    · subst same
      exact ⟨[], group, groups, .inl rfl, by simp, first, by simp [Component.addTo]⟩
    by_cases less : c.type.rank < type.rank
    · refine ⟨[], [], (type, group) :: groups, .inr ⟨rfl, rfl⟩, by simp, ?_, ?_⟩
      · exact List.forall_mem_cons.mpr ⟨less, fun g hg => Nat.lt_trans less (first g hg)⟩
      · simp [Component.addTo, same, less]
    · have greater : type.rank < c.type.rank := by
        have := mt ComponentType.rank_inj same
        omega
      obtain ⟨before, own, after, split, low, high, added⟩ := ih rest
      refine ⟨(type, group) :: before, own, after, ?_, ?_, high, ?_⟩
      · exact split.imp (by rintro rfl; rfl) (by rintro ⟨rfl, none⟩; exact ⟨rfl, none⟩)
      · exact List.forall_mem_cons.mpr ⟨greater, low⟩
      · simp [Component.addTo, same, less, added]

theorem addTo (h : Grouped groups) (c : Component) : Grouped (c.addTo groups) := by
  obtain ⟨before, group, after, split, low, high, added⟩ := h.addTo_eq c
  have sorted : (before ++ after).Pairwise fun g h => g.1.rank < h.1.rank := by
    refine h.ascending.sublist ?_
    rcases split with rfl | ⟨rfl, -⟩
    · exact (List.Sublist.refl before).append (List.sublist_cons_self _ _)
    · exact List.Sublist.refl _
  have others : ∀ g ∈ before ++ after, g ∈ groups := by
    rcases split with rfl | ⟨rfl, -⟩ <;> simp +contextual [or_imp]
  have alike : ∀ x ∈ group, x.type = c.type := by
    rcases split with rfl | ⟨-, rfl⟩
    · exact (h.own (c.type, group) (by simp)).2
    · simp
  obtain ⟨hb, ha, hba⟩ := List.pairwise_append.mp sorted
  rw [added]
  constructor
  · refine List.pairwise_append.mpr ⟨hb, List.pairwise_cons.mpr ⟨high, ha⟩, ?_⟩
    exact fun g hg => List.forall_mem_cons.mpr ⟨low g hg, hba g hg⟩
  · intro g hg
    rcases List.mem_append.mp hg with hg | hg
    · exact h.own g (others g (List.mem_append_left _ hg))
    rcases List.mem_cons.mp hg with rfl | hg
    · refine ⟨by simp, List.forall_mem_append.mpr ⟨alike, by simp⟩⟩
    · exact h.own g (others g (List.mem_append_right _ hg))

end Grouped

namespace Component

end Component

namespace Session

open CommandLine

variable {s : Session} {corpus : Corpus} {config : Config} {read : PatternReader} {m : Manifest}

end Session

end AppSurface
