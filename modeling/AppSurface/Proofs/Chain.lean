import Mathlib.Data.List.Basic

namespace AppSurface

/-- Hops of `r` lead from the first item through those of `l`, the last of which is the end. -/
inductive Chain {α : Type} (r : α → α → Prop) : α → List α → α → Prop
  | nil (a : α) : Chain r a [] a
  | cons {a b c : α} {l : List α} : r a b → Chain r b l c → Chain r a (b :: l) c

namespace Chain

variable {α β : Type} {r : α → α → Prop} {a b c : α} {l k : List α}

theorem map {s : β → β → Prop} (f : α → β) (h : ∀ x y, r x y → s (f x) (f y))
    (chain : Chain r a l b) : Chain s (f a) (l.map f) (f b) := by
  induction chain with
  | nil a => exact .nil (f a)
  | cons hop _ ih => exact .cons (h _ _ hop) ih

theorem mono {s : α → α → Prop} (h : ∀ x y, r x y → s x y) (chain : Chain r a l b) :
    Chain s a l b := by
  simpa using chain.map id h

theorem concat (chain : Chain r a l b) (hop : r b c) : Chain r a (l ++ [c]) c := by
  induction chain with
  | nil a => exact .cons hop (.nil c)
  | cons first _ ih => exact .cons first (ih hop)

theorem append (first : Chain r a l b) (second : Chain r b k c) : Chain r a (l ++ k) c := by
  induction first with
  | nil a => exact second
  | cons hop _ ih => exact .cons hop (ih second)

theorem of_append (chain : Chain r a (l ++ k) c) : ∃ b, Chain r a l b ∧ Chain r b k c := by
  induction l generalizing a with
  | nil => exact ⟨a, .nil a, chain⟩
  | cons x l ih =>
    cases chain with
    | cons hop rest =>
      obtain ⟨b, first, second⟩ := ih rest
      exact ⟨b, .cons hop first, second⟩

theorem preserves {P : α → Prop} (step : ∀ x y, P x → r x y → P y) (chain : Chain r a l b)
    (start : P a) : P b := by
  induction chain with
  | nil => exact start
  | cons hop _ ih => exact ih (step _ _ start hop)

/-- A chain of at least one hop ends with one. -/
theorem last_hop (chain : Chain r a l b) (hl : l ≠ []) :
    ∃ k p, l = k ++ [b] ∧ Chain r a k p ∧ r p b := by
  induction chain with
  | nil => exact absurd rfl hl
  | @cons a d b l hop rest ih =>
    by_cases he : l = []
    · subst he
      cases rest
      exact ⟨[], a, rfl, .nil a, hop⟩
    · obtain ⟨k, p, hk, hc, hp⟩ := ih he
      exact ⟨d :: k, p, by rw [hk]; rfl, .cons hop hc, hp⟩

/-- A chain keeps a property of its start up to the end, or up to a hop that loses it. -/
theorem first_loss {P : α → Prop} (chain : Chain r a l b) (start : P a) :
    P b ∨ ∃ k p x t, l = k ++ x :: t ∧ Chain r a k p ∧ P p ∧ r p x ∧ ¬P x ∧ Chain r x t b := by
  induction chain with
  | nil => exact .inl start
  | @cons a d b l hop rest ih =>
    by_cases hd : P d
    · rcases ih hd with hb | ⟨k, p, x, t, hl, hc, hp, hx, hn, ht⟩
      · exact .inl hb
      · exact .inr ⟨d :: k, p, x, t, by rw [hl]; rfl, .cons hop hc, hp, hx, hn, ht⟩
    · exact .inr ⟨[], a, d, l, rfl, .nil a, start, hop, hd, rest⟩

end Chain

end AppSurface
