import AppSurface.Proofs.PatternMatch

namespace AppSurface.Pattern

open Cursor (Reads)

variable {c d : Cursor} {s : CharSet} {p : Pattern} {ps : List Pattern} {x : Char} {w : List Char}

theorem contains_only {y : Char} : (CharSet.only x).contains y = true ↔ y = x := by
  simp only [CharSet.only, CharSet.contains, Bool.and_eq_true, decide_eq_true_eq]
  exact ⟨fun h => Char.le_antisymm h.2 h.1, fun h => h ▸ ⟨Char.le_refl _, Char.le_refl _⟩⟩

theorem matches_set_iff :
    (Pattern.set s).Matches c d ↔ ∃ x, Reads c [x] d ∧ s.contains x = true := by
  constructor
  · rintro ⟨x, hx, hs⟩
    exact ⟨x, .cons hx (.nil d), hs⟩
  · rintro ⟨x, hx, hs⟩
    cases hx with
    | cons hx rest =>
      cases rest
      exact ⟨x, hx, hs⟩

theorem matches_char_iff : (char x).Matches c d ↔ Reads c [x] d := by
  simp only [char, matches_set_iff, contains_only]
  exact ⟨fun ⟨_, h, he⟩ => he ▸ h, fun h => ⟨x, h, rfl⟩⟩

theorem matches_literal_iff : (literal w).Matches c d ↔ Reads c w d := by
  induction w generalizing c with
  | nil =>
    constructor
    · rintro rfl
      exact .nil c
    · intro h
      cases h
      rfl
  | cons x w ih =>
    cases w with
    | nil => exact matches_char_iff
    | cons y w =>
      change (∃ e, (char x).Matches c e ∧ (literal (y :: w)).Matches e d) ↔ _
      simp only [matches_char_iff, ih]
      exact Cursor.Reads.append_iff.symm

/-- Copies of a single character of a set are a run of such characters. -/
theorem exists_chain_set_iff {n : Nat} :
    (∃ l, Chain (Pattern.set s).Matches c l d ∧ l.length = n) ↔
      ∃ w, Reads c w d ∧ (∀ x ∈ w, s.contains x = true) ∧ w.length = n := by
  constructor
  · rintro ⟨l, chain, rfl⟩
    induction chain with
    | nil c => exact ⟨[], .nil c, by simp, rfl⟩
    | cons hop _ ih =>
      obtain ⟨x, hx, hs⟩ := hop
      obtain ⟨w, hw, hall, hl⟩ := ih
      refine ⟨x :: w, .cons hx hw, ?_, by rw [List.length_cons, hl, List.length_cons]⟩
      exact List.forall_mem_cons.mpr ⟨hs, hall⟩
  · rintro ⟨w, hw, hall, rfl⟩
    induction hw with
    | nil c => exact ⟨[], .nil c, rfl⟩
    | @cons c d e x w hx _ ih =>
      obtain ⟨hs, hall⟩ := List.forall_mem_cons.mp hall
      obtain ⟨l, chain, hl⟩ := ih hall
      exact ⟨d :: l, .cons ⟨x, hx, hs⟩ chain, by rw [List.length_cons, hl, List.length_cons]⟩

theorem matches_star_set_iff :
    (star (.set s)).Matches c d ↔ ∃ w, Reads c w d ∧ ∀ x ∈ w, s.contains x = true := by
  constructor
  · rintro ⟨l, chain, _⟩
    obtain ⟨w, hw, hall, _⟩ := exists_chain_set_iff.mp ⟨l, chain, rfl⟩
    exact ⟨w, hw, hall⟩
  · rintro ⟨w, hw, hall⟩
    obtain ⟨l, chain, _⟩ := exists_chain_set_iff.mpr ⟨w, hw, hall, rfl⟩
    exact ⟨l, chain, Nat.zero_le _, by simp⟩

theorem matches_plus_set_iff :
    (plus (.set s)).Matches c d ↔ ∃ w, Reads c w d ∧ (∀ x ∈ w, s.contains x = true) ∧ w ≠ [] := by
  constructor
  · rintro ⟨l, chain, hl, _⟩
    obtain ⟨w, hw, hall, hlen⟩ := exists_chain_set_iff.mp ⟨l, chain, rfl⟩
    refine ⟨w, hw, hall, ?_⟩
    rintro rfl
    rw [← hlen] at hl
    exact Nat.not_succ_le_zero 0 hl
  · rintro ⟨w, hw, hall, hne⟩
    obtain ⟨l, chain, hlen⟩ := exists_chain_set_iff.mpr ⟨w, hw, hall, rfl⟩
    refine ⟨l, chain, ?_, by simp⟩
    rw [hlen]
    exact List.length_pos_iff.mpr hne

theorem matches_alts_iff (hps : ps ≠ []) : (alts ps).Matches c d ↔ ∃ p ∈ ps, p.Matches c d := by
  induction ps with
  | nil => exact absurd rfl hps
  | cons p ps ih =>
    cases ps with
    | nil => simp [alts]
    | cons q ps =>
      change p.Matches c d ∨ (alts (q :: ps)).Matches c d ↔ _
      rw [ih (List.cons_ne_nil _ _)]
      simp

theorem matches_star_self : (star p).Matches c c := ⟨[], .nil c, Nat.zero_le _, by simp⟩

/-- One copy or more: a first copy, and any number of further ones. -/
theorem matches_plus_iff : (plus p).Matches c d ↔ ∃ e, p.Matches c e ∧ (star p).Matches e d := by
  constructor
  · rintro ⟨l, chain, hl, _⟩
    cases chain with
    | nil => exact absurd hl (Nat.not_succ_le_zero 0)
    | cons hop rest => exact ⟨_, hop, _, rest, Nat.zero_le _, by simp⟩
  · rintro ⟨e, hop, l, rest, _⟩
    exact ⟨e :: l, .cons hop rest, Nat.le_add_left 1 _, by simp⟩

/-- A sequence of patterns ends with a match of the last one. -/
theorem exists_last_of_matches_seqs (h : (seqs (ps ++ [p])).Matches c d) :
    ∃ w e, Reads c w e ∧ p.Matches e d := by
  induction ps generalizing c with
  | nil => exact ⟨[], c, .nil c, h⟩
  | cons q ps ih =>
    have split : ∃ e, q.Matches c e ∧ (seqs (ps ++ [p])).Matches e d := by
      cases ps <;> exact h
    obtain ⟨e, hq, h⟩ := split
    obtain ⟨v, hv⟩ := hq.exists_reads
    obtain ⟨w, f, hw, h⟩ := ih h
    exact ⟨v ++ w, f, hv.append hw, h⟩

end AppSurface.Pattern
