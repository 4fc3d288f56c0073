import Mathlib.Data.List.Flatten
import Mathlib.Order.Lattice

namespace AppSurface

variable {α β : Type} [LinearOrder β] {key : α → β} {l l' : List α}

theorem key_le_trans (key : α → β) (a b c : α) : decide (key a ≤ key b) = true →
    decide (key b ≤ key c) = true → decide (key a ≤ key c) = true := by
  simpa using fun h₁ h₂ => le_trans h₁ h₂

theorem key_le_total (key : α → β) (a b : α) :
    (decide (key a ≤ key b) || decide (key b ≤ key a)) = true := by
  simpa using le_total (key a) (key b)

theorem pairwise_mergeSort_key (key : α → β) (l : List α) :
    (l.mergeSort fun a b => decide (key a ≤ key b)).Pairwise fun a b => key a ≤ key b :=
  (List.pairwise_mergeSort (key_le_trans key) (key_le_total key) l).imp of_decide_eq_true

/-- Entries with one key stand in the order in which they were given. -/
theorem filter_mergeSort_key (key : α → β) (l : List α) (k : β) :
    (l.mergeSort fun a b => decide (key a ≤ key b)).filter (fun a => key a == k) =
      l.filter fun a => key a == k := by
  have equal : (l.filter fun a => key a == k).Pairwise
      fun a b => decide (key a ≤ key b) = true := by
    refine List.pairwise_of_forall_mem_list fun a ha b hb => ?_
    rw [eq_of_beq (List.mem_filter.1 ha).2, eq_of_beq (List.mem_filter.1 hb).2]
    exact decide_eq_true le_rfl
  have kept : (l.filter fun a => key a == k).Sublist
      ((l.mergeSort fun a b => decide (key a ≤ key b)).filter fun a => key a == k) := by
    have sub := (List.sublist_mergeSort (key_le_trans key) (key_le_total key) equal
      List.filter_sublist).filter fun a => key a == k
    simp only [List.filter_filter, Bool.and_self] at sub
    exact sub
  have permuted := (List.mergeSort_perm l fun a b => decide (key a ≤ key b)).filter
    fun a => key a == k
  exact (kept.eq_of_length permuted.length_eq.symm).symm

/-- A list that ascends by a key is determined by its entries with each key. -/
theorem eq_of_ascending_by (ascending : l.Pairwise fun a b => key a ≤ key b)
    (ascending' : l'.Pairwise fun a b => key a ≤ key b)
    (same : ∀ k, l.filter (fun a => key a == k) = l'.filter fun a => key a == k) : l = l' := by
  have mem {l l' : List α}
      (same : ∀ k, l.filter (fun a => key a == k) = l'.filter fun a => key a == k) :
      ∀ a ∈ l, a ∈ l' := fun a ha => by
    have found : a ∈ l.filter fun b => key b == key a := List.mem_filter.2 ⟨ha, beq_self_eq_true _⟩
    rw [same] at found
    exact (List.mem_filter.1 found).1
  induction l generalizing l' with
  | nil =>
    cases l' with
    | nil => rfl
    | cons b l' => exact absurd (mem (fun k => (same k).symm) b List.mem_cons_self) List.not_mem_nil
  | cons a l ih =>
    cases l' with
    | nil => exact absurd (mem same a List.mem_cons_self) List.not_mem_nil
    | cons b l' =>
      obtain ⟨least, rest⟩ := List.pairwise_cons.1 ascending
      obtain ⟨least', rest'⟩ := List.pairwise_cons.1 ascending'
      -- each first entry is in the other list, so neither key is greater
      have le : key a ≤ key b := by
        rcases List.mem_cons.1 (mem (fun k => (same k).symm) b List.mem_cons_self) with rfl | hb
        · exact le_rfl
        · exact least b hb
      have ge : key b ≤ key a := by
        rcases List.mem_cons.1 (mem same a List.mem_cons_self) with rfl | ha
        · exact le_rfl
        · exact least' a ha
      have equal : key b = key a := le_antisymm ge le
      have first := same (key a)
      simp only [List.filter_cons, equal, beq_self_eq_true, if_true, List.cons.injEq] at first
      obtain ⟨rfl, -⟩ := first
      refine congrArg (a :: ·) (ih rest rest' fun k => ?_)
      have tails := same k
      rw [List.filter_cons, List.filter_cons] at tails
      split at tails
      · exact (List.cons.inj tails).2
      · exact tails

/-- Two lists are sorted alike exactly if they have the same entries with each key, in the same
order. -/
theorem mergeSort_key_eq_iff :
    (l.mergeSort fun a b => decide (key a ≤ key b)) =
        (l'.mergeSort fun a b => decide (key a ≤ key b)) ↔
      ∀ k, l.filter (fun a => key a == k) = l'.filter fun a => key a == k := by
  constructor
  · intro equal k
    rw [← filter_mergeSort_key key l, equal, filter_mergeSort_key]
  · intro same
    refine eq_of_ascending_by (pairwise_mergeSort_key key l) (pairwise_mergeSort_key key l') ?_
    exact fun k => by rw [filter_mergeSort_key, filter_mergeSort_key, same]

theorem filter_mergeSort (key : α → β) (p : α → Bool) (l : List α) :
    (l.mergeSort fun a b => decide (key a ≤ key b)).filter p =
      (l.filter p).mergeSort fun a b => decide (key a ≤ key b) := by
  refine eq_of_ascending_by ((pairwise_mergeSort_key key l).filter p)
    (pairwise_mergeSort_key key _) fun k => ?_
  rw [filter_mergeSort_key, List.filter_filter, List.filter_filter]
  simp only [Bool.and_comm (key _ == k)]
  rw [← List.filter_filter, ← List.filter_filter, filter_mergeSort_key]

/-- A part of a list is what is left when some of its entries are marked. -/
theorem exists_marked (h : l'.Sublist l) :
    ∃ marked : List (α × Bool), marked.map Prod.fst = l ∧
      (marked.filter Prod.snd).map Prod.fst = l' := by
  induction h with
  | slnil => exact ⟨[], rfl, rfl⟩
  | cons a _ ih =>
    obtain ⟨marked, rfl, rfl⟩ := ih
    exact ⟨(a, false) :: marked, rfl, rfl⟩
  | cons_cons a _ ih =>
    obtain ⟨marked, rfl, rfl⟩ := ih
    exact ⟨(a, true) :: marked, rfl, rfl⟩

/-- Whatever is left out of a list, the rest stands in the same order when it is sorted. -/
theorem sublist_mergeSort_of_sublist (key : α → β) (h : l'.Sublist l) :
    (l'.mergeSort fun a b => decide (key a ≤ key b)).Sublist
      (l.mergeSort fun a b => decide (key a ≤ key b)) := by
  obtain ⟨marked, rfl, rfl⟩ := exists_marked h
  have unmark (m : List (α × Bool)) :
      ((m.map Prod.fst).mergeSort fun a b => decide (key a ≤ key b)) =
        (m.mergeSort fun a b => decide (key a.1 ≤ key b.1)).map Prod.fst :=
    (List.map_mergeSort (f := Prod.fst) fun _ _ _ _ => rfl).symm
  rw [unmark, unmark, ← filter_mergeSort fun a : α × Bool => key a.1]
  exact List.filter_sublist.map _

end AppSurface
