import AppSurface.Proofs.DocumentShape
import Mathlib.Data.List.Forall2

namespace AppSurface.Xml

/-- A tag that opens an element, and the events between it and the end tag of that element. -/
structure Span where
  tag : Tag
  inside : List Event

/-- The events in front of the end tag that closes an element, in which `depth` elements are
open. -/
def insideFrom : Nat → List Event → List Event
  | _, [] => []
  | 0, .finish :: _ => []
  | depth + 1, .finish :: events => .finish :: insideFrom depth events
  | depth, .start tag :: events => .start tag :: insideFrom (depth + 1) events
  | depth, .empty tag :: events => .empty tag :: insideFrom depth events
  | depth, .text :: events => .text :: insideFrom depth events
  | depth, .aside :: events => .aside :: insideFrom depth events

/-- The spans of all tags that open an element, in order. -/
def spans : List Event → List Span
  | [] => []
  | .start tag :: events => ⟨tag, insideFrom 0 events⟩ :: spans events
  | .empty tag :: events => ⟨tag, []⟩ :: spans events
  | .finish :: events => spans events
  | .text :: events => spans events
  | .aside :: events => spans events

namespace Span

/-- The element without its content. -/
def shell (x : Span) : Element := .node x.tag.name x.tag.attributes []

/-- The value of an attribute, empty when there is none. -/
def value (x : Span) (key : String) : String := x.shell.value key

/-- The spans of the tags of a name that lie inside. -/
def enclosed (x : Span) (name : String) : List Span :=
  (spans x.inside).filter (·.tag.name == name)

/-- Only the tags of what is inside. -/
def tagsOnly (x : Span) : Span := ⟨x.tag, x.inside.filter Event.isTag⟩

/-- The span is that of the tags of `e`. -/
structure Holds (x : Span) (e : Element) : Prop where
  shell : x.shell = .node e.name e.attributes []
  children : Spells e.children (x.inside.filter Event.isTag)

end Span

variable {e root : Element} {es : List Element} {x : Span} {xs : List Span} {events : List Event}
  {document : String}

theorem Spells.isTag (spells : Spells es events) : ∀ event ∈ events, event.isTag = true := by
  induction spells with
  | nil => simp
  | empty _ ih =>
    intro event h
    rcases List.mem_cons.mp h with rfl | h
    · rfl
    · exact ih event h
  | nest _ _ ihInside ih =>
    intro event h
    rcases List.mem_cons.mp h with rfl | h
    · rfl
    · rcases List.mem_append.mp h with h | h
      · exact ihInside event h
      · rcases List.mem_cons.mp h with rfl | h
        · rfl
        · exact ih event h

theorem filter_tagsFrom (depth : Nat) (events : List Event) :
    (tagsFrom depth events).filter Event.isTag = events.filter Event.isTag := by
  induction events generalizing depth with
  | nil => cases depth <;> rfl
  | cons event events ih => cases event <;> cases depth <;> simp [tagsFrom, List.filter_cons, ih]

/-- The tags of the elements in an element do not close it. -/
theorem Spells.insideFrom (spells : Spells es events) (depth : Nat) (rest : List Event) :
    insideFrom depth (events ++ rest) = events ++ insideFrom depth rest := by
  induction spells generalizing depth rest with
  | nil => rfl
  | empty _ ih => cases depth <;> simp [Xml.insideFrom, ih]
  | nest _ _ ihInside ih => cases depth <;> simp [Xml.insideFrom, ihInside, ih]

theorem insideFrom_filter (depth : Nat) (events : List Event) :
    insideFrom depth (events.filter Event.isTag) =
      (insideFrom depth events).filter Event.isTag := by
  induction events generalizing depth with
  | nil => cases depth <;> rfl
  | cons event events ih => cases event <;> cases depth <;> simp [insideFrom, List.filter_cons, ih]

theorem spans_filter (events : List Event) :
    spans (events.filter Event.isTag) = (spans events).map Span.tagsOnly := by
  induction events with
  | nil => rfl
  | cons event events ih =>
    cases event <;> simp [spans, Span.tagsOnly, List.filter_cons, insideFrom_filter, ih]

/-- The elements of a tree have their spans in the order of the tree. -/
theorem Spells.spans_append (spells : Spells es events) (rest : List Event) :
    ∃ xs, spans (events ++ rest) = xs ++ spans rest ∧
      List.Forall₂ Span.Holds xs (Element.preorderAll es) := by
  induction spells generalizing rest with
  | nil => exact ⟨[], rfl, .nil⟩
  | @empty tag es events _ ih =>
    obtain ⟨xs, hx, holds⟩ := ih rest
    exact ⟨⟨tag, []⟩ :: xs, by simp [spans, hx], .cons ⟨rfl, .nil⟩ holds⟩
  | @nest tag ds es inside events body _ ihInside ih =>
    obtain ⟨xs, hx, holds⟩ := ih rest
    obtain ⟨ys, hy, inner⟩ := ihInside (.finish :: (events ++ rest))
    have own : Xml.insideFrom 0 (inside ++ .finish :: (events ++ rest)) = inside := by
      rw [body.insideFrom]
      simp [Xml.insideFrom]
    have tags : inside.filter Event.isTag = inside := List.filter_eq_self.mpr body.isTag
    refine ⟨⟨tag, inside⟩ :: (ys ++ xs), ?_, .cons ⟨rfl, ?_⟩ ?_⟩
    · simp [spans, own, hy, hx]
    · rw [tags]
      exact body
    · exact List.rel_append inner holds

theorem Spells.holds (spells : Spells es (events.filter Event.isTag)) :
    List.Forall₂ Span.Holds (spans events) (Element.preorderAll es) := by
  obtain ⟨xs, hx, holds⟩ := spells.spans_append []
  have same : (spans events).map Span.tagsOnly = xs := by
    rw [← spans_filter]
    simpa [spans] using hx
  rw [← same, List.forall₂_map_left_iff] at holds
  refine holds.imp ?_
  intro x e h
  exact ⟨h.shell, by simpa [Span.tagsOnly] using h.children⟩

namespace Span.Holds

variable (holds : x.Holds e)
include holds

theorem value (key : String) : x.value key = e.value key := by
  rw [Span.value, holds.shell]
  rfl

theorem name : x.tag.name = e.name := congrArg Element.name holds.shell

/-- The elements of a name in an element have the spans of that name inside. -/
theorem enclosed (name : String) : List.Forall₂ Holds (x.enclosed name) (e.within name) := by
  refine List.rel_filter ?_ holds.children.holds
  intro y d h
  simp [h.name]

end Span.Holds

/-- What is computed alike from spans and elements is alike in a whole list. -/
theorem map_eq_of_holds {β : Type} {f : Span → β} {g : Element → β}
    (h : List.Forall₂ Span.Holds xs es) (hfg : ∀ x e, x.Holds e → f x = g e) :
    xs.map f = es.map g := by
  induction h with
  | nil => rfl
  | cons first _ ih => rw [List.map_cons, List.map_cons, hfg _ _ first, ih]

theorem forall₂_holds_of_parse (h : parse document = .ok root) :
    List.Forall₂ Span.Holds (spans (eventsOf document.toList).events) root.preorder := by
  have spells := parse_eq_ok_iff.mp h
  have tags := (filter_tagsFrom 0 _).symm.trans (List.filter_eq_self.mpr spells.2.isTag)
  have holds := Spells.holds (tags ▸ spells.2)
  simpa [Element.preorderAll] using holds

end AppSurface.Xml
