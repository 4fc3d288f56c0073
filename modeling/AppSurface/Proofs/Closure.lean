import AppSurface.Proofs.MethodGraph
import Mathlib.Data.Finset.Card
import Mathlib.Data.Finset.Image
import Mathlib.Data.List.Perm.Subperm

namespace AppSurface

variable {c : Corpus} {d : CallDetector} {methods : List MethodRef} {depth i j : Nat}
  {targets searched : List Nat} {g : CallGraph} {m n : MethodRef}

/-- The distinct signatures of the methods of a corpus and of some more methods. -/
def Corpus.signatures (c : Corpus) (methods : List MethodRef) : Finset String :=
  ((c.methods ++ methods).map (·.signature)).toFinset

/-- Caller hops of the corpus lead from one of `methods` to `m`. -/
def Corpus.Reaches (c : Corpus) (d : CallDetector) (methods : List MethodRef) (m : MethodRef) :
    Prop := ∃ s ∈ methods, ∃ l, Chain (c.Calls d) s l m

namespace CallGraph.Traced

variable (traced : g.Traced (c.callersOf d) methods depth targets searched)
include traced

theorem nodeCount_le_signatures : g.nodeCount ≤ (c.signatures methods).card := by
  have inside : ∀ i ∈ Finset.range g.nodeCount, g.signatureAt i ∈ c.signatures methods := by
    intro i hi
    obtain ⟨m, hm⟩ := exists_node (Finset.mem_range.mp hi)
    rw [signatureAt_of_node traced.valid hm]
    exact List.mem_toFinset.mpr (List.mem_map_of_mem (traced.node_mem hm))
  have apart : ∀ i ∈ Finset.range g.nodeCount, ∀ j ∈ Finset.range g.nodeCount,
      g.signatureAt i = g.signatureAt j → i = j := by
    intro i hi j hj he
    exact signatureAt_inj traced.valid (Finset.mem_range.mp hi) (Finset.mem_range.mp hj) he
  have := Finset.card_le_card_of_injOn g.signatureAt inside apart
  rwa [Finset.card_range] at this

/-- The search stops short only at the end of a chain of `depth` hops without repetition, for which
the graph has too few nodes. -/
theorem all_searched (deep : (c.signatures methods).card ≤ depth) (hi : i < g.nodeCount) :
    i ∈ searched := by
  have count := traced.nodeCount_le_signatures
  obtain ⟨s, hs, l, hl, _⟩ := traced.reached i hi
  by_cases he : l = []
  · subst he
    cases hl
    exact traced.started (by omega) i hs
  · obtain ⟨_, p, _, _, hr⟩ := hl.last_hop he
    rcases traced.stopped p i hr with hi | ⟨s, _, l, _, hb, hn, hv⟩
    · exact hi
    · by_contra hout
      have nodup : (i :: s :: l).Nodup :=
        List.nodup_cons.mpr ⟨fun hmem => hout (hv i hmem), hn⟩
      have inside : i :: s :: l ⊆ List.range g.nodeCount := by
        intro q hq
        rcases List.mem_cons.mp hq with rfl | hq
        · exact List.mem_range.mpr hi
        · exact List.mem_range.mpr (traced.sound.seen (hv q hq))
      have := (List.Nodup.subperm nodup inside).length_le
      simp only [List.length_cons, List.length_range] at this
      omega

variable (undotted : ∀ m ∈ c.methods ++ methods, m.Undotted)
  (deep : (c.signatures methods).card ≤ depth)
include undotted deep

theorem exists_node_iff_reaches : (∃ i, g.node? i = some m) ↔ c.Reaches d methods m := by
  constructor
  · rintro ⟨i, hm⟩
    obtain ⟨s, hs, l, hl, _⟩ := traced.reached i (node_lt hm)
    obtain ⟨k, hk⟩ := exists_node (traced.target_lt hs)
    refine ⟨k, (traced.target_iff undotted hk).mp hs, l.map g.methodAt, ?_⟩
    have := traced.chain_calls undotted hl
    rwa [methodAt_of_node hk, methodAt_of_node hm] at this
  · rintro ⟨s, hs, l, hl⟩
    obtain ⟨i, _, hx⟩ := traced.indexes.exists_index hs
    have start := traced.node_of_index undotted (List.mem_append_right _ hs) hx
    refine hl.preserves (P := fun m => ∃ i, g.node? i = some m) ?_ ⟨i, start⟩
    rintro x y ⟨i, hx⟩ hc
    obtain ⟨j, hy, _⟩ :=
      traced.recorded_of_calls undotted (traced.all_searched deep (node_lt hx)) hx hc
    exact ⟨j, hy⟩

end CallGraph.Traced

/-- With a depth bound no smaller than the number of distinct signatures, every node has all of its
callers recorded, the nodes are the methods reached from the targets by caller hops, and the entry
points are those of them that are no targets and are called by no other method. -/
theorem Tracer.closed_of_deep (t : Tracer) (c : Corpus) (methods : List MethodRef)
    (undotted : ∀ m ∈ c.methods ++ methods, m.Undotted)
    (deep : (c.signatures methods).card ≤ t.maxDepth) :
    let g := (t.traceFrom c methods).graph
    (∀ i < g.nodeCount, g.AllRecorded (c.callersOf t.detector) i) ∧
    (∀ m, (∃ i, g.node? i = some m) ↔ c.Reaches t.detector methods m) ∧
    ∀ m, (∃ e ∈ (t.traceFrom c methods).entries, g.node? e.node = some m) ↔
      c.Reaches t.detector methods m ∧ m ∉ methods ∧ ∀ n, ¬c.Calls t.detector m n := by
  intro g
  obtain ⟨searched, traced⟩ := t.traceFrom_traced c methods
  refine ⟨fun i hi => traced.allRecorded (traced.all_searched deep hi),
    fun m => traced.exists_node_iff_reaches undotted deep, ?_⟩
  intro m
  rw [t.traceFrom_entries, ← t.traceFrom_graph, ← t.traceFrom_targets,
    traced.exists_entry_iff undotted, ← traced.exists_node_iff_reaches undotted deep]
  constructor
  · rintro ⟨hmem, i, hm, hc⟩
    have hi := traced.all_searched deep (CallGraph.node_lt hm)
    exact ⟨⟨i, hm⟩, hmem, (traced.callers_eq_nil_iff undotted hi hm).mp hc⟩
  · rintro ⟨⟨i, hm⟩, hmem, none⟩
    have hi := traced.all_searched deep (CallGraph.node_lt hm)
    exact ⟨hmem, i, hm, (traced.callers_eq_nil_iff undotted hi hm).mpr none⟩

theorem Tracer.shortcut_closed :
    let g := ((bare 5).traceFrom shortcut [⟨"T", "t"⟩]).graph
    (∀ m ∈ shortcut.methods ++ [⟨"T", "t"⟩], m.Undotted) ∧
    (shortcut.signatures [⟨"T", "t"⟩]).card ≤ 5 ∧
    (∀ i < g.nodeCount, g.AllRecorded (shortcut.callersOf ⟨[]⟩) i) ∧
    shortcut.Reaches ⟨[]⟩ [⟨"T", "t"⟩] ⟨"E", "e"⟩ ∧ ∀ n, ¬shortcut.Calls ⟨[]⟩ ⟨"E", "e"⟩ n := by
  intro g
  have undotted : ∀ m ∈ shortcut.methods ++ [⟨"T", "t"⟩], m.Undotted := by decide +kernel
  have deep : (shortcut.signatures [⟨"T", "t"⟩]).card ≤ 5 := by decide +kernel
  have h := closed_of_deep (bare 5) shortcut [⟨"T", "t"⟩] undotted deep
  have entry : ∃ e ∈ ((bare 5).traceFrom shortcut [⟨"T", "t"⟩]).entries,
      g.node? e.node = some ⟨"E", "e"⟩ := by decide +kernel
  obtain ⟨reached, _, last⟩ := (h.2.2 ⟨"E", "e"⟩).mp entry
  exact ⟨undotted, deep, h.1, reached, last⟩

end AppSurface
