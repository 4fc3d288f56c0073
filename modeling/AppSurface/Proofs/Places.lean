import AppSurface.Java.SyntaxTree
import Mathlib.Data.List.Basic

namespace AppSurface.Java

/-- Where a piece of a text stands: from its first character up to behind its last. -/
structure Place where
  first : Nat
  stop : Nat

/-- Pieces of a text follow one another between two positions, and none is empty. -/
structure InOrder (lo : Nat) (ps : List Place) (hi : Nat) : Prop where
  le : lo ≤ hi
  inside : ∀ p ∈ ps, lo ≤ p.first ∧ p.first < p.stop ∧ p.stop ≤ hi
  apart : ps.Pairwise fun p q => p.stop ≤ q.first

namespace InOrder

variable {lo lo' mid hi hi' : Nat} {p : Place} {ps qs : List Place}

theorem nil (h : lo ≤ hi) : InOrder lo [] hi := ⟨h, by simp, .nil⟩

theorem single (hlo : lo ≤ p.first) (h : p.first < p.stop) : InOrder lo [p] p.stop :=
  ⟨by omega, by simp [hlo, h], List.pairwise_singleton _ _⟩

theorem mono (h : InOrder lo ps hi) (hlo : lo' ≤ lo) (hhi : hi ≤ hi') : InOrder lo' ps hi' := by
  refine ⟨Nat.le_trans hlo (Nat.le_trans h.le hhi), ?_, h.apart⟩
  intro p hp
  have := h.inside p hp
  omega

theorem append (h : InOrder lo ps mid) (h' : InOrder mid qs hi) : InOrder lo (ps ++ qs) hi := by
  refine ⟨Nat.le_trans h.le h'.le, ?_, List.pairwise_append.mpr ⟨h.apart, h'.apart, ?_⟩⟩
  · intro p hp
    have := h.le
    have := h'.le
    rcases List.mem_append.mp hp with hp | hp
    · have := h.inside p hp
      omega
    · have := h'.inside p hp
      omega
  · intro p hp q hq
    have := h.inside p hp
    have := h'.inside q hq
    omega

theorem of_cons (h : InOrder lo (p :: ps) hi) :
    lo ≤ p.first ∧ p.first < p.stop ∧ InOrder p.stop ps hi := by
  obtain ⟨hlo, hp, hhi⟩ := h.inside p List.mem_cons_self
  obtain ⟨behind, apart⟩ := List.pairwise_cons.mp h.apart
  refine ⟨hlo, hp, hhi, ?_, apart⟩
  intro q hq
  obtain ⟨-, hq', hhi'⟩ := h.inside q (List.mem_cons_of_mem _ hq)
  exact ⟨behind q hq, hq', hhi'⟩

/-- Pieces end with the last of them. -/
theorem of_getLast? (h : InOrder lo ps hi) (last : ps.getLast? = some p) :
    InOrder lo ps p.stop ∧ p.stop ≤ hi := by
  obtain ⟨qs, rfl⟩ := List.getLast?_eq_some_iff.mp last
  have hp := h.inside p (by simp)
  refine ⟨⟨by omega, ?_, h.apart⟩, hp.2.2⟩
  intro q hq
  obtain ⟨hlo, hq', _⟩ := h.inside q hq
  refine ⟨hlo, hq', ?_⟩
  rcases List.mem_append.mp hq with hq | hq
  · have := (List.pairwise_append.mp h.apart).2.2 q hq p List.mem_cons_self
    omega
  · exact Nat.le_of_eq (by rw [List.mem_singleton.mp hq])

end InOrder

/-- Things of which each is `Good` stand in a text one behind the other. -/
structure Arranged {α : Type} (place : α → Place) (Good : α → Prop) (lo : Nat) (xs : List α)
    (hi : Nat) : Prop where
  order : InOrder lo (xs.map place) hi
  good : ∀ x ∈ xs, Good x

namespace Arranged

variable {α : Type} {place : α → Place} {Good : α → Prop} {lo lo' mid hi hi' : Nat} {x : α}
  {xs ys : List α}

theorem nil (h : lo ≤ hi) : Arranged place Good lo [] hi := ⟨.nil h, by simp⟩

theorem single (hlo : lo ≤ (place x).first) (h : (place x).first < (place x).stop) (hx : Good x) :
    Arranged place Good lo [x] (place x).stop := ⟨.single hlo h, by simp [hx]⟩

theorem mono (h : Arranged place Good lo xs hi) (hlo : lo' ≤ lo) (hhi : hi ≤ hi') :
    Arranged place Good lo' xs hi' := ⟨h.order.mono hlo hhi, h.good⟩

theorem append (h : Arranged place Good lo xs mid) (h' : Arranged place Good mid ys hi) :
    Arranged place Good lo (xs ++ ys) hi := by
  refine ⟨?_, ?_⟩
  · rw [List.map_append]
    exact h.order.append h'.order
  · intro x hx
    exact (List.mem_append.mp hx).elim (h.good x) (h'.good x)

theorem of_cons (h : Arranged place Good lo (x :: xs) hi) : lo ≤ (place x).first ∧
    (place x).first < (place x).stop ∧ Good x ∧ Arranged place Good (place x).stop xs hi := by
  obtain ⟨hlo, hx, rest⟩ := h.order.of_cons
  exact ⟨hlo, hx, h.good x List.mem_cons_self, rest,
    fun y hy => h.good y (List.mem_cons_of_mem _ hy)⟩

theorem of_append (h : Arranged place Good lo (xs ++ ys) hi) :
    ∃ mid, Arranged place Good lo xs mid ∧ Arranged place Good mid ys hi := by
  induction xs generalizing lo with
  | nil => exact ⟨lo, .nil (Nat.le_refl _), h⟩
  | cons x xs ih =>
    obtain ⟨hlo, hx, good, rest⟩ := h.of_cons
    obtain ⟨mid, before, behind⟩ := ih rest
    exact ⟨mid, (single hlo hx good).append before, behind⟩

/-- Things start with the first of them. -/
theorem of_head (h : Arranged place Good lo (x :: xs) hi) :
    Arranged place Good (place x).first (x :: xs) hi := by
  obtain ⟨-, hx, good, rest⟩ := h.of_cons
  exact (single (Nat.le_refl _) hx good).append rest

theorem sublist (h : Arranged place Good lo xs hi) (sub : ys.Sublist xs) :
    Arranged place Good lo ys hi := by
  refine ⟨⟨h.order.le, ?_, h.order.apart.sublist (sub.map place)⟩, ?_⟩
  · exact fun p hp => h.order.inside p ((sub.map place).mem hp)
  · exact fun x hx => h.good x (sub.mem hx)

theorem of_mem (h : Arranged place Good lo xs hi) (hx : x ∈ xs) : lo ≤ (place x).first ∧
    (place x).first < (place x).stop ∧ (place x).stop ≤ hi ∧ Good x := by
  obtain ⟨hlo, hp, hhi⟩ := h.order.inside (place x) (List.mem_map_of_mem hx)
  exact ⟨hlo, hp, hhi, h.good x hx⟩

theorem apart (h : Arranged place Good lo xs hi) :
    xs.Pairwise fun x y => (place x).stop ≤ (place y).first := List.pairwise_map.mp h.order.apart

/-- Of two things that are not the same, one ends before the other starts. -/
theorem apart_of_mem {y : α} (h : Arranged place Good lo xs hi) (hx : x ∈ xs) (hy : y ∈ xs) :
    x = y ∨ (place x).stop ≤ (place y).first ∨ (place y).stop ≤ (place x).first := by
  induction xs generalizing lo with
  | nil => cases hx
  | cons z xs ih =>
    obtain ⟨-, -, -, rest⟩ := h.of_cons
    rcases List.mem_cons.mp hx with hx | hx
    · rcases List.mem_cons.mp hy with hy | hy
      · exact .inl (hx.trans hy.symm)
      · rw [hx]
        exact .inr (.inl (rest.of_mem hy).1)
    · rcases List.mem_cons.mp hy with hy | hy
      · rw [hy]
        exact .inr (.inr (rest.of_mem hx).1)
      · exact ih rest hx hy

/-- Lists of parts of things, each part with a place inside of its thing, are related as their
places follow one another. -/
theorem pairwise_flatMap {β : Type} {f : α → List β} {R : β → β → Prop}
    (h : Arranged place Good lo xs hi) (key : β → Nat)
    (within : ∀ x ∈ xs, ∀ a ∈ f x, (place x).first ≤ key a ∧ key a < (place x).stop)
    (less : ∀ a b, key a < key b → R a b) (each : ∀ x ∈ xs, (f x).Pairwise R) :
    (xs.flatMap f).Pairwise R := by
  refine List.pairwise_flatMap.mpr ⟨each, h.apart.imp_of_mem ?_⟩
  intro x y hx hy apart a ha b hb
  have := within x hx a ha
  have := within y hy b hb
  exact less a b (by omega)

end Arranged

namespace SyntaxNode

def place (n : SyntaxNode) : Place := ⟨n.first, n.stop⟩

def IsType (n : SyntaxNode) : Prop :=
  n.kind ∈ ["annotation_type_declaration", "class_declaration", "enum_declaration",
    "interface_declaration", "record_declaration"]

def IsMethod (n : SyntaxNode) : Prop :=
  n.kind ∈ ["compact_constructor_declaration", "constructor_declaration", "method_declaration"]

/-- What the grammar says of the children of a declaration: a method or a field has a name, and a
type has one in front of its body. -/
structure Complete (n : SyntaxNode) : Prop where
  named : n.IsMethod ∨ n.kind = "variable_declarator" → ∃ name, n.child? "name" = some name
  typed : n.IsType → ∃ name body, n.child? "name" = some name ∧ n.child? "body" = some body ∧
    name.stop ≤ body.first

/-- A syntax tree as it is of a text without errors. -/
inductive WellFormed : SyntaxNode → Prop
  | mk {n : SyntaxNode} : InOrder n.first (n.children.map place) n.stop →
    (∀ c ∈ n.children, WellFormed c) → n.Complete → WellFormed n

abbrev Placed : Nat → List SyntaxNode → Nat → Prop := Arranged place WellFormed

namespace WellFormed

variable {n : SyntaxNode}

theorem placed (h : n.WellFormed) : Placed n.first n.children n.stop := by
  cases h with
  | mk order good _ => exact ⟨order, good⟩

theorem complete (h : n.WellFormed) : n.Complete := by
  cases h with
  | mk _ _ complete => exact complete

theorem of_placed (h : Placed n.first n.children n.stop) (complete : n.Complete) : n.WellFormed :=
  .mk h.order h.good complete

end WellFormed

end SyntaxNode

end AppSurface.Java
