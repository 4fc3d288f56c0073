import AppSurface.Proofs.TreeCoverage

namespace AppSurface.CallerTree

variable {g : CallGraph} {os : List Occurrence} {level target i : Nat}

/-- A method has a line in the tree of a target. -/
def Appears (g : CallGraph) (target : Nat) (s : String) : Prop :=
  ∃ o ∈ occurrences 0 (ofTarget g target), o.signature = s

/-- An unmarked line of a node has all of the node's callers below it, in order of creation. -/
def ListsCallers (g : CallGraph) (os : List Occurrence) (i : Nat) : Prop :=
  ∃ o ∈ os, o.signature = g.signatureAt i ∧ o.recursive = false ∧
    o.callers = (g.callers i).map g.signatureAt

instance (g : CallGraph) (os : List Occurrence) (i : Nat) : Decidable (ListsCallers g os i) :=
  inferInstanceAs (Decidable (∃ _ ∈ os, _))

instance (g : CallGraph) (target : Nat) (s : String) : Decidable (Appears g target s) :=
  inferInstanceAs (Decidable (∃ _ ∈ occurrences 0 (ofTarget g target), _))

theorem Appears.exists_line (valid : g.Valid) (ht : target < g.nodeCount) (hi : i < g.nodeCount)
    (h : Appears g target (g.signatureAt i)) :
    ∃ level, line g level i ∈ occurrences 0 (ofTarget g target) := by
  obtain ⟨o, ho, same⟩ := h
  exact (ofTarget_shows valid ht).exists_line_of_signature valid ho hi same

theorem listsCallers_of_line (hl : line g level i ∈ os)
    (hc : level < depthLimit ∨ g.callers i = []) : ListsCallers g os i := by
  refine ⟨_, hl, rfl, rfl, ?_⟩
  rw [line, shownBelow]
  split
  · rfl
  next hd => rw [hc.resolve_left hd, List.map_nil]

theorem eq_of_unmarked {x y : Occurrence} (lone : (unmarked os).Nodup) (hx : x ∈ os) (hy : y ∈ os)
    (hxr : x.recursive = false) (hyr : y.recursive = false) (same : x.signature = y.signature) :
    x = y := by
  have hx' : x ∈ os.filter fun o => !o.recursive := List.mem_filter.mpr ⟨hx, by simp [hxr]⟩
  have hy' : y ∈ os.filter fun o => !o.recursive := List.mem_filter.mpr ⟨hy, by simp [hyr]⟩
  exact List.inj_on_of_nodup_map lone hx' hy' same

/-- Lines of a tree among which a node has an unmarked one list its callers exactly if the node is
not cut off. -/
theorem listsCallers_iff_not_cutOff (valid : g.Valid) (ht : target < g.nodeCount)
    (hl : line g level i ∈ os) (sub : os ⊆ occurrences 0 (ofTarget g target)) :
    ListsCallers g os i ↔ ¬CutOff g target i := by
  constructor
  · rintro ⟨o, ho, named, hr, callers⟩ ⟨some, x, hx, named', hr', limit⟩
    have lone := (ofTarget_shows valid ht).nodup_unmarked valid
    have hox : o = x := eq_of_unmarked lone (sub ho) hx hr hr' (named.trans named'.symm)
    have hol : o = line g level i := eq_of_unmarked lone (sub ho) (sub hl) hr rfl named
    have deep : level = depthLimit := by
      rw [← hox, hol] at limit
      exact limit
    have none : (line g level i).callers = [] := if_neg (by omega)
    rw [hol, none] at callers
    exact some (List.map_eq_nil_iff.mp callers.symm)
  · intro whole
    apply listsCallers_of_line hl
    by_cases none : g.callers i = []
    · exact .inr none
    · exact .inl (lt_depthLimit valid ht (sub hl) none whole)

/-- Every mark refers to an unmarked line of the same node in front of it, and the callers of the
node stand below that line exactly if the node is not cut off. Every node that few enough hops lead
to from the target appears exactly if every node that is cut off on the way has all of its callers
appear elsewhere. -/
theorem mark_lists_callers_iff (valid : g.Valid) (ht : target < g.nodeCount) :
    (∀ before o more, occurrences 0 (ofTarget g target) = before ++ o :: more →
      o.recursive = true → ∃ i < g.nodeCount, o.signature = g.signatureAt i ∧
        o.signature ∈ unmarked before ∧ (ListsCallers g before i ↔ ¬CutOff g target i)) ∧
    ((∀ i l, Chain g.Recorded target l i → l.length ≤ depthLimit →
        Appears g target (g.signatureAt i)) ↔
      ∀ i l, Chain g.Recorded target l i → l.length < depthLimit → CutOff g target i →
        ∀ j, g.Recorded i j → Appears g target (g.signatureAt j)) := by
  constructor
  · intro before o more split hr
    have shows := ofTarget_shows valid ht
    have sub : before ⊆ occurrences 0 (ofTarget g target) := by
      rw [split]
      exact List.subset_append_left _ _
    rw [split] at shows
    obtain ⟨i, hi, named, level, hl⟩ := shows.line_before hr
    refine ⟨i, hi, named, ?_, listsCallers_iff_not_cutOff valid ht hl sub⟩
    rw [named]
    exact mem_unmarked hl rfl
  · constructor
    · intro near i l chain hl _ j hr
      apply near j (l ++ [j]) (chain.concat hr)
      rw [List.length_append]
      exact hl
    · intro below i l chain hl
      rcases shown_or_cutOff valid ht chain with shown | ⟨k, p, x, t, split, hk, hr, cut, lost⟩
      · obtain ⟨level, hi⟩ := shown
        exact ⟨_, hi, rfl⟩
      · have short : k.length < depthLimit := by
          rw [split, List.length_append, List.length_cons] at hl
          omega
        have hx := below p k hk short cut x hr
        exact absurd (hx.exists_line valid ht (valid.joined hr).2) lost

theorem shortcut_mark_lists_callers :
    let g := ((Tracer.bare 5).traceFrom Tracer.shortcut [⟨"T", "t"⟩]).graph
    g.Valid ∧ 0 < g.nodeCount ∧
      (∃ before o more, occurrences 0 (ofTarget g 0) = before ++ o :: more ∧
        o.recursive = true ∧ ListsCallers g before 2) ∧
      ∀ i l, Chain g.Recorded 0 l i → l.length ≤ depthLimit → Appears g 0 (g.signatureAt i) := by
  intro g
  obtain ⟨_, traced⟩ := (Tracer.bare 5).traceFrom_traced Tracer.shortcut [⟨"T", "t"⟩]
  have valid : g.Valid := traced.valid
  have facts : 2 < g.nodeCount ∧ mark g 1 2 ∈ occurrences 0 (ofTarget g 0) ∧
      ∀ i < g.nodeCount, ¬CutOff g 0 i := by decide +kernel
  obtain ⟨two, marked, whole⟩ := facts
  have ht : 0 < g.nodeCount := by omega
  have h := mark_lists_callers_iff valid ht
  obtain ⟨before, more, split⟩ := List.append_of_mem marked
  obtain ⟨i, hi, named, _, lists⟩ := h.1 before _ more split rfl
  have same : i = 2 := (CallGraph.signatureAt_inj valid two hi named).symm
  rw [same] at lists
  refine ⟨valid, ht, ⟨before, _, more, split, rfl, lists.mpr (whole 2 two)⟩, h.2.mpr ?_⟩
  intro i _ _ _ cut j hr
  exact absurd cut (whole i (valid.joined hr).1)

/-- One method to a class: `a` calls `t`, each other method calls the one before it, and `j`, ten
hops from `t` on this way, also calls `t` itself. -/
def ladder : Corpus :=
  ⟨[⟨"A", "A", "", ["a"], [], "final a(){t()}"⟩, ⟨"B", "B", "", ["b"], [], "final b(){a()}"⟩,
    ⟨"C", "C", "", ["c"], [], "final c(){b()}"⟩, ⟨"D", "D", "", ["d"], [], "final d(){c()}"⟩,
    ⟨"E", "E", "", ["e"], [], "final e(){d()}"⟩, ⟨"F", "F", "", ["f"], [], "final f(){e()}"⟩,
    ⟨"G", "G", "", ["g"], [], "final g(){f()}"⟩, ⟨"H", "H", "", ["h"], [], "final h(){g()}"⟩,
    ⟨"I", "I", "", ["i"], [], "final i(){h()}"⟩, ⟨"J", "J", "", ["j"], [], "final j(){i();t()}"⟩,
    ⟨"K", "K", "", ["k"], [], "final k(){j()}"⟩, ⟨"T", "T", "", ["t"], [], "final t(){}"⟩], []⟩

/-- The line of `j` below `t` is marked, but no line in the tree has the caller of `j` below it, and
this caller does not appear although it is two hops away. -/
theorem ladder_mark_without_callers :
    let g := ((Tracer.bare 20).traceFrom ladder [⟨"T", "t"⟩]).graph
    let os := occurrences 0 (ofTarget g 0)
    g.Valid ∧ 0 < g.nodeCount ∧ g.signatureAt 10 = "J.j" ∧
      (∃ o ∈ os, o.recursive = true ∧ o.signature = g.signatureAt 10) ∧
      ¬ListsCallers g os 10 ∧ Chain g.Recorded 0 [10, 11] 11 ∧
      ¬Appears g 0 (g.signatureAt 11) := by
  intro g os
  obtain ⟨_, traced⟩ := (Tracer.bare 20).traceFrom_traced ladder [⟨"T", "t"⟩]
  have valid : g.Valid := traced.valid
  have facts : 0 < g.nodeCount ∧ g.signatureAt 10 = "J.j" ∧
      (∃ o ∈ os, o.recursive = true ∧ o.signature = g.signatureAt 10) ∧
      ¬ListsCallers g os 10 ∧ ((0, 10) ∈ g.edges ∧ (10, 11) ∈ g.edges) ∧
      ¬Appears g 0 (g.signatureAt 11) := by decide +kernel
  obtain ⟨ht, named, marked, unlisted, ⟨first, second⟩, lost⟩ := facts
  exact ⟨valid, ht, named, marked, unlisted, .cons first (.cons second (.nil 11)), lost⟩

end AppSurface.CallerTree
