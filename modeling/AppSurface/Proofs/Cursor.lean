import AppSurface.Pattern.Basic
import Mathlib.Data.List.Basic

namespace AppSurface

namespace Cursor

variable {c d e : Cursor} {x : Char} {v w s : List Char}

/-- The characters of `w` lead from one place to another. -/
inductive Reads : Cursor → List Char → Cursor → Prop
  | nil (c : Cursor) : Reads c [] c
  | cons {c d e : Cursor} {x : Char} {w : List Char} :
    c.next? = some (x, d) → Reads d w e → Reads c (x :: w) e

theorem next?_eq_some (h : c.next? = some (x, d)) :
    c.after = x :: d.after ∧ d.offset = c.offset + x.utf8Size ∧ d.before = some x := by
  unfold next? at h
  split at h
  · cases h
  · cases h
    exact ⟨rfl, rfl, rfl⟩

theorem exists_next (h : c.after = x :: s) : ∃ d, c.next? = some (x, d) ∧ d.after = s := by
  obtain ⟨offset, before, after⟩ := c
  cases h
  exact ⟨_, rfl, rfl⟩

namespace Reads

theorem after_eq (h : Reads c w d) : c.after = w ++ d.after := by
  induction h with
  | nil c => rfl
  | cons hx _ ih => rw [(next?_eq_some hx).1, ih, List.cons_append]

theorem append (first : Reads c v d) (second : Reads d w e) : Reads c (v ++ w) e := by
  induction first with
  | nil c => exact second
  | cons hx _ ih => exact .cons hx (ih second)

theorem of_append (h : Reads c (v ++ w) e) : ∃ d, Reads c v d ∧ Reads d w e := by
  induction v generalizing c with
  | nil => exact ⟨c, .nil c, h⟩
  | cons x v ih =>
    cases h with
    | cons hx rest =>
      obtain ⟨d, hv, hw⟩ := ih rest
      exact ⟨d, .cons hx hv, hw⟩

theorem append_iff : Reads c (v ++ w) e ↔ ∃ d, Reads c v d ∧ Reads d w e :=
  ⟨of_append, fun ⟨_, hv, hw⟩ => hv.append hw⟩

theorem offset_le (h : Reads c w d) : c.offset ≤ d.offset := by
  induction h with
  | nil c => exact Nat.le_refl _
  | cons hx _ ih =>
    have := (next?_eq_some hx).2.1
    omega

theorem offset_lt (h : Reads c w d) (hw : w ≠ []) : c.offset < d.offset := by
  cases h with
  | nil => exact absurd rfl hw
  | @cons _ _ _ x _ hx rest =>
    have step := (next?_eq_some hx).2.1
    have size : 0 < x.utf8Size := x.utf8Size_pos
    have := rest.offset_le
    omega

/-- Before the place reached stands the last character read. -/
theorem before_eq (h : Reads c w d) : d.before = w.getLast?.or c.before := by
  induction h with
  | nil c => rfl
  | @cons _ _ _ x w hx _ ih =>
    rw [ih, (next?_eq_some hx).2.2, List.getLast?_cons]
    cases w.getLast? <;> rfl

end Reads

/-- What stands ahead can be read. -/
theorem exists_reads (h : c.after = w ++ s) : ∃ d, Reads c w d ∧ d.after = s := by
  induction w generalizing c with
  | nil => exact ⟨c, .nil c, h⟩
  | cons x w ih =>
    obtain ⟨d, hx, hd⟩ := exists_next h
    obtain ⟨e, hw, he⟩ := ih hd
    exact ⟨e, .cons hx hw, he⟩

section Places

variable {α : Type} {f : Cursor → Option α} {a : α} {offset : Nat} {before : Option Char}

/-- A search through the places of a text has no answer exactly when no place has one. -/
theorem findSome?_placesFrom_eq_none_iff :
    (placesFrom offset before s).findSome? f = none ↔
      ∀ w c, Reads ⟨offset, before, s⟩ w c → f c = none := by
  induction s generalizing offset before with
  | nil =>
    constructor
    · intro h w c hw
      cases hw with
      | nil => simpa [placesFrom] using h
      | cons hx => cases hx
    · intro h
      simpa [placesFrom] using h [] _ (.nil _)
  | cons x s ih =>
    constructor
    · intro h w c hw
      rw [placesFrom, List.findSome?_cons] at h
      split at h
      · cases h
      next hf =>
        cases hw with
        | nil => exact hf
        | cons hx hw =>
          cases hx
          exact ih.mp h _ c hw
    · intro h
      rw [placesFrom, List.findSome?_cons, h [] _ (.nil _)]
      exact ih.mpr fun w c hw => h (x :: w) c (.cons rfl hw)

/-- The answer of a search through the places is that of the first place that has one. -/
theorem findSome?_placesFrom_eq_some (h : (placesFrom offset before s).findSome? f = some a) :
    ∃ w c, Reads ⟨offset, before, s⟩ w c ∧ f c = some a ∧
      ∀ v d, Reads ⟨offset, before, s⟩ v d → v.length < w.length → f d = none := by
  induction s generalizing offset before with
  | nil => exact ⟨[], _, .nil _, by simpa [placesFrom] using h, by simp⟩
  | cons x s ih =>
    rw [placesFrom, List.findSome?_cons] at h
    split at h
    next hf => exact ⟨[], _, .nil _, hf.trans h, by simp⟩
    next hf =>
      obtain ⟨w, c, hw, hc, first⟩ := ih h
      refine ⟨x :: w, c, .cons rfl hw, hc, ?_⟩
      intro v d hv hlt
      cases hv with
      | nil => exact hf
      | cons hx hv =>
        cases hx
        exact first _ d hv (Nat.lt_of_succ_lt_succ hlt)

end Places

end Cursor

end AppSurface
