import AppSurface.Proofs.WalkTrace

namespace AppSurface

variable {callersOf : String → List MethodRef} {methods : List MethodRef} {depth i j : Nat}
  {targets searched : List Nat} {g : CallGraph} {m n : MethodRef}

/-- The graph `g` came about by tracing from `targets`, the nodes of `methods`. Callers were looked
for at the nodes of `searched`, and at no other. -/
structure CallGraph.Traced (callersOf : String → List MethodRef) (methods : List MethodRef)
    (depth : Nat) (targets : List Nat) (g : CallGraph) (searched : List Nat) : Prop where
  sound : Walk.Sound callersOf methods ⟨g, searched⟩
  indexes : g.Indexes methods targets
  started : 0 < depth → ∀ i ∈ targets, i ∈ searched
  complete : ∀ i ∈ searched, Walk.Complete callersOf g i
  reached : ∀ i < g.nodeCount,
    ∃ s ∈ targets, ∃ l, Chain g.Recorded s l i ∧ l.length ≤ depth
  stopped : ∀ i j, g.Recorded i j → j ∈ searched ∨
    ∃ s ∈ targets, ∃ l, Chain g.Recorded s l i ∧ l.length + 1 = depth ∧ (s :: l).Nodup ∧
      ∀ p ∈ s :: l, p ∈ searched

namespace CallGraph

/-- The recorded callers of the node `i` are all callers found for it, but not `i` itself. -/
def AllRecorded (callersOf : String → List MethodRef) (g : CallGraph) (i : Nat) : Prop :=
  ∃ m, g.node? i = some m ∧ ∀ s, s ∈ (g.callers i).map g.signatureAt ↔
    s ≠ m.signature ∧ s ∈ (callersOf m.methodName).map (·.signature)

theorem Traced.valid (traced : g.Traced callersOf methods depth targets searched) : g.Valid :=
  traced.sound.valid

theorem Traced.allRecorded (traced : g.Traced callersOf methods depth targets searched)
    (hi : i ∈ searched) : g.AllRecorded callersOf i := by
  obtain ⟨m, hm⟩ := exists_node (traced.sound.seen hi)
  refine ⟨m, hm, ?_⟩
  intro s
  simp only [List.mem_map]
  constructor
  · rintro ⟨j, hj, rfl⟩
    have hr := (mem_callers traced.valid).mp hj
    obtain ⟨_, k, n, hk, hn, hx⟩ := traced.sound.justified hr
    have hkm : k = m := Option.some.inj (hk.symm.trans hm)
    obtain ⟨p, hp, hs⟩ := (index?_eq_some_iff traced.valid).mp hx
    rw [signatureAt_of_node traced.valid hp, hs]
    refine ⟨?_, n, hkm ▸ hn, rfl⟩
    intro he
    exact traced.valid.loopless hr (traced.valid.distinct hm hp (he.symm.trans hs.symm))
  · rintro ⟨hne, n, hn, rfl⟩
    obtain ⟨j, hx, hj⟩ := traced.complete i hi m hm n hn
    obtain ⟨p, hp, hs⟩ := (index?_eq_some_iff traced.valid).mp hx
    rcases hj with rfl | hr
    · have hpm : p = m := Option.some.inj (hp.symm.trans hm)
      exact absurd (hpm ▸ hs.symm) hne
    · exact ⟨j, (mem_callers traced.valid).mpr hr, (signatureAt_of_node traced.valid hp).trans hs⟩

theorem Traced.callers_eq_nil (traced : g.Traced callersOf methods depth targets searched)
    (hi : i ∉ searched) : g.callers i = [] := by
  apply List.eq_nil_iff_forall_not_mem.mpr
  intro j hj
  exact hi (traced.sound.justified ((mem_callers traced.valid).mp hj)).1

end CallGraph

namespace Tracer

variable (t : Tracer) (c : Corpus)

/-- A walk that starts from the nodes of some methods, before anything was looked for. -/
theorem start_sound (callersOf : String → List MethodRef) (methods : List MethodRef) :
    Walk.Sound callersOf methods ⟨(CallGraph.empty.ensureAll methods).2, []⟩ := by
  obtain ⟨valid, _, edges, _, nodes⟩ := CallGraph.ensureAll_spec CallGraph.empty_valid methods
  refine ⟨valid, ?_, by simp, ?_⟩
  · intro i m hm
    rcases nodes i m hm with hm | ⟨_, hm⟩
    · cases hm
    · exact .inl hm
  · intro i j hr
    change (i, j) ∈ (CallGraph.empty.ensureAll methods).2.edges at hr
    rw [edges] at hr
    exact absurd hr List.not_mem_nil

theorem graphOf_traced (methods : List MethodRef) : ∃ searched,
    (t.graphOf c methods).2.Traced (c.callersOf t.detector) methods t.maxDepth
      (t.graphOf c methods).1 searched := by
  obtain ⟨valid, _, _, indexes, nodes⟩ := CallGraph.ensureAll_spec CallGraph.empty_valid methods
  have inside : ∀ i ∈ (CallGraph.empty.ensureAll methods).1,
      i < (CallGraph.empty.ensureAll methods).2.nodeCount := by
    intro i hi
    obtain ⟨m, _, hm⟩ := indexes.exists_method hi
    obtain ⟨k, hk, _⟩ := (CallGraph.index?_eq_some_iff valid).mp hm
    exact CallGraph.node_lt hk
  have explores : Walk.Explores (c.callersOf t.detector) methods t.maxDepth
      (CallGraph.empty.ensureAll methods).1 ⟨(CallGraph.empty.ensureAll methods).2, []⟩ _ :=
    Walk.foldl_explores (start_sound _ methods) inside
  refine ⟨_, explores.sound, indexes.mono explores.grows.graph valid explores.sound.valid,
    explores.visits, ?_, ?_, ?_⟩
  · intro i hi
    exact (explores.complete i hi).resolve_left List.not_mem_nil
  · intro i hi
    rcases explores.reached i hi with hi | far
    · obtain ⟨m, hm⟩ := CallGraph.exists_node hi
      rcases nodes i m hm with hm | ⟨hi, _⟩
      · cases hm
      · exact ⟨i, hi, [], .nil i, Nat.zero_le _⟩
    · exact far
  · intro i j hr
    rcases explores.stopped i j List.not_mem_nil hr with hj | ⟨s, hs, l, hl, hb, hn, hv⟩
    · exact .inl hj
    · exact .inr ⟨s, hs, l, hl, hb, hn, fun p hp => (hv p hp).1⟩

theorem traceFrom_graph (methods : List MethodRef) :
    (t.traceFrom c methods).graph = (t.graphOf c methods).2 := by
  cases methods <;> rfl

theorem traceFrom_targets (methods : List MethodRef) :
    (t.traceFrom c methods).targets = (t.graphOf c methods).1 := by
  cases methods <;> rfl

theorem traceFrom_entries (methods : List MethodRef) :
    (t.traceFrom c methods).entries =
      t.entryPoints (t.graphOf c methods).2 (t.graphOf c methods).1 := by
  cases methods <;> rfl

theorem traceFrom_traced (methods : List MethodRef) : ∃ searched,
    (t.traceFrom c methods).graph.Traced (c.callersOf t.detector) methods t.maxDepth
      (t.traceFrom c methods).targets searched := by
  rw [traceFrom_graph, traceFrom_targets]
  exact t.graphOf_traced c methods

/-- A tracer without confirming rules and without components. -/
def bare (depth : Nat) : Tracer := ⟨⟨[]⟩, depth, 10, []⟩

/-- One method to a class: `a` and `b` call `t`, and `b` calls `a`; `c` calls `b`, and `e` calls
`c`. In corpus order `b` is met as a caller of `a` before it is met as a caller of `t`. -/
def shortcut : Corpus :=
  ⟨[⟨"A", "A", "", ["a"], [], "final a(){t()}"⟩, ⟨"B", "B", "", ["b"], [], "final b(){t();a()}"⟩,
    ⟨"C", "C", "", ["c"], [], "final c(){b()}"⟩, ⟨"E", "E", "", ["e"], [], "final e(){c()}"⟩,
    ⟨"T", "T", "", ["t"], [], "final t(){}"⟩], []⟩

/-- Every node lies within the depth bound of a target, by recorded callers, and every edge joins
two different nodes and is borne out by the text of a method. -/
theorem nodes_reached_and_edges_justified (methods : List MethodRef) :
    let g := (t.traceFrom c methods).graph
    (∀ i < g.nodeCount, ∃ m ∈ methods, ∃ s, g.index? m.signature = some s ∧
      ∃ l, Chain (fun p q => q ∈ g.callers p) s l i ∧ l.length ≤ t.maxDepth) ∧
    ∀ i j, (i, j) ∈ g.edges → i ≠ j ∧ ∃ m n, g.node? i = some m ∧ g.node? j = some n ∧
      c.Justifies t.detector m n := by
  intro g
  obtain ⟨searched, traced⟩ := t.traceFrom_traced c methods
  constructor
  · intro i hi
    obtain ⟨s, hs, l, hl, hb⟩ := traced.reached i hi
    obtain ⟨m, hm, hx⟩ := traced.indexes.exists_method hs
    refine ⟨m, hm, s, hx, l, hl.mono ?_, hb⟩
    intro p q hr
    exact (CallGraph.mem_callers traced.valid).mpr hr
  · intro i j hr
    obtain ⟨_, m, n, hm, hn, hx⟩ := traced.sound.justified hr
    obtain ⟨k, hk, hs⟩ := (CallGraph.index?_eq_some_iff traced.valid).mp hx
    exact ⟨traced.valid.loopless hr, m, k, hm, hk, Corpus.justifies_of_mem_callersOf hn hs.symm⟩

theorem shortcut_reached_and_justified :
    let g := ((bare 3).traceFrom shortcut [⟨"T", "t"⟩]).graph
    (3 < g.nodeCount ∧ ∃ m ∈ [MethodRef.mk "T" "t"], ∃ s, g.index? m.signature = some s ∧
      ∃ l, Chain (fun p q => q ∈ g.callers p) s l 3 ∧ l.length ≤ 3) ∧
    (2, 3) ∈ g.edges ∧ 2 ≠ 3 ∧ ∃ m n, g.node? 2 = some m ∧ g.node? 3 = some n ∧
      shortcut.Justifies ⟨[]⟩ m n := by
  intro g
  have h := nodes_reached_and_edges_justified (bare 3) shortcut [⟨"T", "t"⟩]
  have far : 3 < g.nodeCount := by decide +kernel
  have edge : (2, 3) ∈ g.edges := by decide +kernel
  exact ⟨⟨far, h.1 3 far⟩, edge, h.2 2 3 edge⟩

/-- A node has all of its callers recorded or none of them, and a target has all of them recorded
unless the depth bound is zero. -/
theorem callers_all_or_none (methods : List MethodRef) :
    let g := (t.traceFrom c methods).graph
    (∀ i < g.nodeCount, g.callers i = [] ∨ g.AllRecorded (c.callersOf t.detector) i) ∧
    (0 < t.maxDepth → ∀ m ∈ methods, ∃ i, g.index? m.signature = some i ∧
      g.AllRecorded (c.callersOf t.detector) i) := by
  intro g
  obtain ⟨searched, traced⟩ := t.traceFrom_traced c methods
  constructor
  · intro i _
    by_cases hi : i ∈ searched
    · exact .inr (traced.allRecorded hi)
    · exact .inl (traced.callers_eq_nil hi)
  · intro hd m hm
    obtain ⟨i, hi, hx⟩ := traced.indexes.exists_index hm
    exact ⟨i, hx, traced.allRecorded (traced.started hd i hi)⟩

theorem shortcut_all_or_none :
    let g := ((bare 1).traceFrom shortcut [⟨"T", "t"⟩]).graph
    (1 < g.nodeCount ∧ (g.callers 1 = [] ∨ g.AllRecorded (shortcut.callersOf ⟨[]⟩) 1)) ∧
    0 < 1 ∧ ∃ i, g.index? "T.t" = some i ∧ g.AllRecorded (shortcut.callersOf ⟨[]⟩) i := by
  intro g
  have h := callers_all_or_none (bare 1) shortcut [⟨"T", "t"⟩]
  have near : 1 < g.nodeCount := by decide +kernel
  exact ⟨⟨near, h.1 1 near⟩, Nat.one_pos, h.2 Nat.one_pos ⟨"T", "t"⟩ List.mem_cons_self⟩

end Tracer

end AppSurface
