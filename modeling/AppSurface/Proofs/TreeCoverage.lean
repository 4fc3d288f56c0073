import AppSurface.Proofs.CallerTree
import AppSurface.Proofs.TracedGraph
import Mathlib.Data.List.Nodup

namespace AppSurface.CallerTree

variable {g : CallGraph} {shown after : List Nat} {os before more : List Occurrence}
  {o : Occurrence} {level target i j : Nat} {p : String × String}

theorem mem_unmarked (ho : o ∈ os) (hr : o.recursive = false) : o.signature ∈ unmarked os := by
  have kept : o ∈ os.filter fun o => !o.recursive := List.mem_filter.mpr ⟨ho, by simp [hr]⟩
  exact List.mem_map_of_mem kept

theorem mem_links : p ∈ links os ↔ ∃ o ∈ os, o.signature = p.1 ∧ p.2 ∈ o.callers := by
  obtain ⟨above, below⟩ := p
  unfold links
  rw [List.mem_flatMap]
  constructor
  · rintro ⟨o, ho, hp⟩
    obtain ⟨s, hs, same⟩ := List.mem_map.mp hp
    cases same
    exact ⟨o, ho, rfl, hs⟩
  · rintro ⟨o, ho, rfl, hs⟩
    exact ⟨o, ho, List.mem_map_of_mem hs⟩

/-- Marked lines have no callers, so a link repeats only if an unmarked line does. -/
theorem nodup_links (lone : (unmarked os).Nodup)
    (leaf : ∀ o ∈ os, o.recursive = true → o.callers = []) (own : ∀ o ∈ os, o.callers.Nodup) :
    (links os).Nodup := by
  induction os with
  | nil => exact List.nodup_nil
  | cons o os ih =>
    have leaf' : ∀ x ∈ os, x.recursive = true → x.callers = [] := fun x hx =>
      leaf x (List.mem_cons_of_mem _ hx)
    have own' : ∀ x ∈ os, x.callers.Nodup := fun x hx => own x (List.mem_cons_of_mem _ hx)
    have split : links (o :: os) = o.callers.map (fun s => (o.signature, s)) ++ links os := rfl
    cases hr : o.recursive with
    | true =>
      have same : unmarked (o :: os) = unmarked os := by simp [unmarked, hr]
      have none : o.callers = [] := leaf o List.mem_cons_self hr
      rw [split, none]
      rw [same] at lone
      exact ih lone leaf' own'
    | false =>
      have same : unmarked (o :: os) = o.signature :: unmarked os := by simp [unmarked, hr]
      rw [same] at lone
      obtain ⟨alone, rest⟩ := List.nodup_cons.mp lone
      have first : (o.callers.map fun s => (o.signature, s)).Nodup :=
        (own o List.mem_cons_self).map fun _ _ same => (Prod.mk.inj same).2
      rw [split]
      apply first.append (ih rest leaf' own')
      intro p hp hlinks
      obtain ⟨s, _, rfl⟩ := List.mem_map.mp hp
      obtain ⟨x, hx, named, hs⟩ := mem_links.mp hlinks
      have hxr : x.recursive = false := by
        by_contra marked
        rw [leaf' x hx (by simpa using marked)] at hs
        cases hs
      apply alone
      have := mem_unmarked hx hxr
      rwa [named] at this

theorem Shows.marked (shows : Shows g shown os after) (ho : o ∈ os) (hr : o.recursive = true) :
    o.callers = [] := by
  obtain ⟨_, _, _, _, ⟨same, _⟩ | same⟩ := shows.of_mem ho
  · rw [same] at hr
    cases hr
  · rw [same]
    rfl

/-- A marked line stands behind an unmarked one of the same node. -/
theorem Shows.line_before (shows : Shows g [] (before ++ o :: more) after)
    (hr : o.recursive = true) :
    ∃ i < g.nodeCount, o.signature = g.signatureAt i ∧ ∃ level, line g level i ∈ before := by
  obtain ⟨mid, first, rest⟩ := shows.split
  cases rest with
  | @again _ _ _ level i hi hn _ _ =>
    exact ⟨i, hn, rfl, (first.exists_line hi).resolve_left List.not_mem_nil⟩
  | first => cases hr

theorem Shows.callers_nodup (valid : g.Valid) (shows : Shows g shown os after) (ho : o ∈ os) :
    o.callers.Nodup := by
  obtain ⟨_, i, _, _, ⟨same, _⟩ | same⟩ := shows.of_mem ho
  · rw [same]
    unfold line shownBelow
    split
    · exact CallGraph.nodup_callerSignatures valid i
    · exact List.nodup_nil
  · rw [same]
    exact List.nodup_nil

/-- In the tree of a target each node has at most one line without a mark. A marked line has no
callers and stands behind an unmarked one of its node. No line stands deeper than the limit, and an
unmarked line has the recorded callers of its node below it, or none at the limit. If no node is cut
off, all nodes that caller hops lead to from the target have one unmarked line, and the edges
between them have one link. -/
theorem lines_cover (valid : g.Valid) (ht : target < g.nodeCount) :
    let os := occurrences 0 (ofTarget g target)
    (unmarked os).Nodup ∧
    (∀ before o more, os = before ++ o :: more → o.recursive = true →
      o.callers = [] ∧ o.signature ∈ unmarked before) ∧
    (∀ o ∈ os, o.level ≤ depthLimit ∧ ∃ i < g.nodeCount, o.signature = g.signatureAt i ∧
      (o.recursive = false → o.callers =
        if o.level < depthLimit then (g.callers i).map g.signatureAt else [])) ∧
    ((∀ i < g.nodeCount, ¬CutOff g target i) → ∀ i l, Chain g.Recorded target l i →
      (unmarked os).count (g.signatureAt i) = 1 ∧
      ∀ j, g.Recorded i j → (links os).count (g.signatureAt i, g.signatureAt j) = 1) := by
  intro os
  have shows : Shows g [] os _ := ofTarget_shows valid ht
  have lone := shows.nodup_unmarked valid
  refine ⟨lone, ?_, ?_, ?_⟩
  · intro before o more split hr
    have ho : o ∈ os := by simp [split]
    rw [split] at shows
    obtain ⟨i, _, named, level, hl⟩ := shows.line_before hr
    refine ⟨shows.marked (split ▸ ho) hr, ?_⟩
    rw [named]
    exact mem_unmarked hl rfl
  · intro o ho
    obtain ⟨hl, i, _, hn, same⟩ := shows.of_mem ho
    refine ⟨hl, i, hn, ?_⟩
    rcases same with ⟨same, _⟩ | same
    · rw [same]
      exact ⟨rfl, fun _ => rfl⟩
    · rw [same]
      exact ⟨rfl, fun hr => by cases hr⟩
  · intro whole i l chain
    obtain ⟨level, hl⟩ := exists_line_of_chain valid ht whole chain
    refine ⟨List.count_eq_one_of_mem lone (mem_unmarked hl rfl), ?_⟩
    intro j hr
    have hj : j ∈ g.callers i := (CallGraph.mem_callers valid).mpr hr
    have hd := lt_depthLimit valid ht hl (List.ne_nil_of_mem hj) (whole i (valid.joined hr).1)
    have below : g.signatureAt j ∈ shownBelow g level i := by
      rw [shownBelow, if_pos hd]
      exact List.mem_map_of_mem hj
    have once := nodup_links lone (fun o => shows.marked) fun o => shows.callers_nodup valid
    exact List.count_eq_one_of_mem once (mem_links.mpr ⟨_, hl, rfl, below⟩)

/-- `b` calls `a` and the target `t`, so the line of `b` below `t` is a marked one. -/
theorem shortcut_covered :
    let g := ((Tracer.bare 5).traceFrom Tracer.shortcut [⟨"T", "t"⟩]).graph
    let os := occurrences 0 (ofTarget g 0)
    g.Valid ∧ 0 < g.nodeCount ∧ (∀ i < g.nodeCount, ¬CutOff g 0 i) ∧
      (∃ o ∈ os, o.recursive = true) ∧ Chain g.Recorded 0 [1, 2] 2 ∧
      (unmarked os).count (g.signatureAt 2) = 1 ∧
      (links os).count (g.signatureAt 2, g.signatureAt 3) = 1 := by
  intro g os
  obtain ⟨_, traced⟩ := (Tracer.bare 5).traceFrom_traced Tracer.shortcut [⟨"T", "t"⟩]
  have valid : g.Valid := traced.valid
  have facts : 0 < g.nodeCount ∧ (∀ i < g.nodeCount, ¬CutOff g 0 i) ∧
      (∃ o ∈ os, o.recursive = true) ∧
      (0, 1) ∈ g.edges ∧ (1, 2) ∈ g.edges ∧ (2, 3) ∈ g.edges := by decide +kernel
  obtain ⟨ht, whole, marked, first, second, third⟩ := facts
  have chain : Chain g.Recorded 0 [1, 2] 2 := .cons first (.cons second (.nil 2))
  have h := (lines_cover valid ht).2.2.2 whole 2 [1, 2] chain
  exact ⟨valid, ht, whole, marked, chain, h.1, h.2 3 third⟩

end AppSurface.CallerTree
