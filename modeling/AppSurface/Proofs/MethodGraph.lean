import AppSurface.Proofs.Signature
import AppSurface.Proofs.TracedGraph
import Mathlib.Data.List.Nodup

namespace AppSurface

/-- The method of a node. -/
def CallGraph.methodAt (g : CallGraph) (i : Nat) : MethodRef := (g.node? i).getD ⟨"", ""⟩

theorem CallGraph.methodAt_of_node {g : CallGraph} {i : Nat} {m : MethodRef}
    (hm : g.node? i = some m) : g.methodAt i = m := by
  rw [methodAt, hm, Option.getD_some]

namespace CallGraph.Traced

variable {c : Corpus} {d : CallDetector} {methods : List MethodRef} {depth i j : Nat}
  {targets searched l : List Nat} {g : CallGraph} {m n : MethodRef}
  (traced : g.Traced (c.callersOf d) methods depth targets searched)
include traced

/-- Every node is a target or a method of the corpus. -/
theorem node_mem (hm : g.node? i = some m) : m ∈ c.methods ++ methods := by
  rcases traced.sound.origin hm with hm | ⟨name, hm⟩
  · exact List.mem_append_right _ hm
  · exact List.mem_append_left _ (Corpus.callersOf_subset_methods hm)

theorem target_lt (hi : i ∈ targets) : i < g.nodeCount := by
  obtain ⟨m, _, hx⟩ := traced.indexes.exists_method hi
  obtain ⟨k, hk, _⟩ := (index?_eq_some_iff traced.valid).mp hx
  exact node_lt hk

variable (undotted : ∀ m ∈ c.methods ++ methods, m.Undotted)
include undotted

theorem node_of_index (hm : m ∈ c.methods ++ methods) (hx : g.index? m.signature = some i) :
    g.node? i = some m := by
  obtain ⟨k, hk, hs⟩ := (index?_eq_some_iff traced.valid).mp hx
  rw [hk, MethodRef.eq_of_signature (undotted k (traced.node_mem hk)) (undotted m hm) hs]

theorem target_iff (hm : g.node? i = some m) : i ∈ targets ↔ m ∈ methods := by
  constructor
  · intro hi
    obtain ⟨k, hk, hx⟩ := traced.indexes.exists_method hi
    have hki := traced.node_of_index undotted (List.mem_append_right _ hk) hx
    rwa [Option.some.inj (hm.symm.trans hki)]
  · intro hmem
    obtain ⟨k, hk, hx⟩ := traced.indexes.exists_index hmem
    rwa [Option.some.inj ((index?_signature traced.valid hm).symm.trans hx)]

theorem calls_of_recorded (hr : g.Recorded i j) : c.Calls d (g.methodAt i) (g.methodAt j) := by
  obtain ⟨_, m, n, hm, hn, hx⟩ := traced.sound.justified hr
  have hj := traced.node_of_index undotted
    (List.mem_append_left _ (Corpus.callersOf_subset_methods hn)) hx
  rw [methodAt_of_node hm, methodAt_of_node hj]
  refine ⟨hn, ?_⟩
  intro he
  exact traced.valid.loopless hr (traced.valid.distinct hm hj he.symm)

/-- Where callers were looked for, every caller hop of the corpus is recorded. -/
theorem recorded_of_calls (hi : i ∈ searched) (hm : g.node? i = some m) (hc : c.Calls d m n) :
    ∃ j, g.node? j = some n ∧ g.Recorded i j := by
  obtain ⟨j, hx, hj⟩ := traced.complete i hi m hm n hc.1
  have hn := traced.node_of_index undotted
    (List.mem_append_left _ (Corpus.callersOf_subset_methods hc.1)) hx
  rcases hj with rfl | hr
  · have hmn : m = n := Option.some.inj (hm.symm.trans hn)
    exact absurd (hmn ▸ rfl) hc.2
  · exact ⟨j, hn, hr⟩

theorem chain_calls {s : Nat} (chain : Chain g.Recorded s l i) :
    Chain (c.Calls d) (g.methodAt s) (l.map g.methodAt) (g.methodAt i) :=
  chain.map g.methodAt fun _ _ hr => traced.calls_of_recorded undotted hr

omit undotted in
theorem nodup_methods (hl : l.Nodup) (hin : ∀ p ∈ l, p < g.nodeCount) :
    (l.map g.methodAt).Nodup := by
  refine hl.map_on ?_
  intro p hp q hq he
  obtain ⟨m, hm⟩ := exists_node (hin p hp)
  obtain ⟨n, hn⟩ := exists_node (hin q hq)
  rw [methodAt_of_node hm, methodAt_of_node hn] at he
  exact traced.valid.distinct hm hn (he ▸ rfl)

/-- Entry points are the nodes other than targets that have no recorded callers. -/
theorem exists_entry_iff {t : Tracer} :
    (∃ e ∈ t.entryPoints g targets, g.node? e.node = some m) ↔
      m ∉ methods ∧ ∃ i, g.node? i = some m ∧ g.callers i = [] := by
  simp only [Tracer.entryPoints, List.mem_map, List.mem_filter, indices, List.mem_range,
    Bool.and_eq_true, Bool.not_eq_true', List.contains_eq_mem, decide_eq_false_iff_not,
    List.isEmpty_iff]
  constructor
  · rintro ⟨_, ⟨i, ⟨_, hi, hc⟩, rfl⟩, hm⟩
    exact ⟨fun hmem => hi ((traced.target_iff undotted hm).mpr hmem), i, hm, hc⟩
  · rintro ⟨hmem, i, hm, hc⟩
    exact ⟨_, ⟨i, ⟨node_lt hm, fun hi => hmem ((traced.target_iff undotted hm).mp hi), hc⟩, rfl⟩,
      hm⟩

/-- A node where callers were looked for has none recorded exactly when the corpus has none. -/
theorem callers_eq_nil_iff (hi : i ∈ searched) (hm : g.node? i = some m) :
    g.callers i = [] ↔ ∀ n, ¬c.Calls d m n := by
  constructor
  · intro hnil n hc
    obtain ⟨j, _, hr⟩ := traced.recorded_of_calls undotted hi hm hc
    have := (mem_callers traced.valid).mpr hr
    rw [hnil] at this
    exact List.not_mem_nil this
  · intro none
    apply List.eq_nil_iff_forall_not_mem.mpr
    intro j hj
    have := traced.calls_of_recorded undotted ((mem_callers traced.valid).mp hj)
    rw [methodAt_of_node hm] at this
    exact none _ this

end CallGraph.Traced

end AppSurface
