import AppSurface.Proofs.MethodGraph

namespace AppSurface

variable {c : Corpus} {d : CallDetector} {methods : List MethodRef} {depth i j : Nat}
  {targets searched : List Nat} {g : CallGraph} {m n p x : MethodRef}

/-- At most `k` caller hops of the corpus lead from one of `methods` to `m`. -/
def Corpus.Within (c : Corpus) (d : CallDetector) (methods : List MethodRef) (k : Nat)
    (m : MethodRef) : Prop :=
  ∃ s ∈ methods, ∃ l, Chain (c.Calls d) s l m ∧ l.length ≤ k

/-- A chain of `depth` caller hops without repetition leads from one of `methods` to `x`, and its
last hop is the one from `p`. -/
def Corpus.Detour (c : Corpus) (d : CallDetector) (methods : List MethodRef) (depth : Nat)
    (p x : MethodRef) : Prop :=
  ∃ s ∈ methods, ∃ l, Chain (c.Calls d) s l p ∧ c.Calls d p x ∧ (s :: (l ++ [x])).Nodup ∧
    l.length + 1 = depth

/-- No detour of two hops from a single method leads over that method again. -/
theorem Corpus.not_detour_two {s : MethodRef} (hp : c.Within d [s] 0 p) : ¬c.Detour d [s] 2 p x := by
  obtain ⟨q, hq, l, hl, hb⟩ := hp
  have hnil : l = [] := List.length_eq_zero_iff.mp (by omega)
  subst hnil
  cases hl
  rintro ⟨r, hr, k, hk, _, hn, hlen⟩
  obtain ⟨a, rfl⟩ := List.length_eq_one_iff.mp (show k.length = 1 by omega)
  cases hk with
  | cons _ rest =>
    cases rest
    rw [List.mem_singleton.mp hq, List.mem_singleton.mp hr] at hn
    simp at hn

namespace Tracer

/-- The graph has a node for every method within the depth bound, and for every method nearer than
that it has all callers recorded. -/
def Exact (t : Tracer) (c : Corpus) (methods : List MethodRef) : Prop :=
  (∀ m, c.Within t.detector methods t.maxDepth m →
    ∃ i, (t.traceFrom c methods).graph.node? i = some m) ∧
  ∀ k < t.maxDepth, ∀ m, c.Within t.detector methods k m →
    ∃ i, (t.traceFrom c methods).graph.node? i = some m ∧
      (t.traceFrom c methods).graph.AllRecorded (c.callersOf t.detector) i

/-- The method `x`, which is no target, is recorded as a caller of `p` at the end of a detour, and
has no callers recorded itself. -/
def CutOff (t : Tracer) (c : Corpus) (methods : List MethodRef) (p x : MethodRef) : Prop :=
  x ∉ methods ∧ c.Detour t.detector methods t.maxDepth p x ∧
    ∃ i j, (t.traceFrom c methods).graph.node? i = some p ∧
      (t.traceFrom c methods).graph.node? j = some x ∧
      j ∈ (t.traceFrom c methods).graph.callers i ∧ (t.traceFrom c methods).graph.callers j = []

end Tracer

namespace CallGraph.Traced

variable (traced : g.Traced (c.callersOf d) methods depth targets searched)
  (undotted : ∀ m ∈ c.methods ++ methods, m.Undotted)
include traced undotted

theorem detour_of_not_searched (hj : j ∉ searched) (hr : g.Recorded i j) :
    c.Detour d methods depth (g.methodAt i) (g.methodAt j) := by
  obtain ⟨s, hs, l, hl, hb, hn, hv⟩ := (traced.stopped i j hr).resolve_left hj
  obtain ⟨k, hk⟩ := exists_node (traced.target_lt hs)
  have start : g.methodAt s ∈ methods := by
    rw [methodAt_of_node hk]
    exact (traced.target_iff undotted hk).mp hs
  have nodup : (s :: (l ++ [j])).Nodup := by
    refine List.nodup_append.mpr ⟨hn, by simp, ?_⟩
    intro p hp q hq he
    rw [he, List.mem_singleton.mp hq] at hp
    exact hj (hv j hp)
  have inside : ∀ p ∈ s :: (l ++ [j]), p < g.nodeCount := by
    intro p hp
    rcases List.mem_append.mp (show p ∈ (s :: l) ++ [j] from hp) with hp | hp
    · exact traced.sound.seen (hv p hp)
    · rw [List.mem_singleton.mp hp]
      exact (traced.valid.joined hr).2
  refine ⟨g.methodAt s, start, l.map g.methodAt, traced.chain_calls undotted hl,
    traced.calls_of_recorded undotted hr, ?_, by simpa using hb⟩
  simpa using traced.nodup_methods nodup inside

/-- A chain of caller hops is followed to its end, or up to a method that was not searched. -/
theorem followed_or_stopped {s : MethodRef} {l : List MethodRef} (hd : 0 < depth)
    (hs : s ∈ methods) (chain : Chain (c.Calls d) s l m) :
    (∃ i ∈ searched, g.node? i = some m) ∨ ∃ k p x r i j, l = k ++ x :: r ∧
      Chain (c.Calls d) s k p ∧ Chain (c.Calls d) x r m ∧ g.node? i = some p ∧
      g.node? j = some x ∧ j ∉ searched ∧ g.Recorded i j := by
  obtain ⟨i, hi, hx⟩ := traced.indexes.exists_index hs
  have start := traced.node_of_index undotted (List.mem_append_right _ hs) hx
  rcases chain.first_loss (P := fun m => ∃ i ∈ searched, g.node? i = some m)
    ⟨i, traced.started hd i hi, start⟩ with hm | ⟨k, p, x, r, hl, hk, ⟨i, hi, hp⟩, hc, hn, hr⟩
  · exact .inl hm
  · obtain ⟨j, hx, hrec⟩ := traced.recorded_of_calls undotted hi hp hc
    exact .inr ⟨k, p, x, r, i, j, hl, hk, hr, hp, hx, fun hj => hn ⟨j, hj, hx⟩, hrec⟩

end CallGraph.Traced

namespace Tracer

variable (t : Tracer) (c : Corpus)

theorem cutOff_of_not_searched
    (traced : (t.traceFrom c methods).graph.Traced (c.callersOf t.detector) methods t.maxDepth
      targets searched)
    (undotted : ∀ m ∈ c.methods ++ methods, m.Undotted) (hd : 0 < t.maxDepth) (hj : j ∉ searched)
    (hp : (t.traceFrom c methods).graph.node? i = some p)
    (hx : (t.traceFrom c methods).graph.node? j = some x)
    (hr : (t.traceFrom c methods).graph.Recorded i j) : t.CutOff c methods p x := by
  have detour := traced.detour_of_not_searched undotted hj hr
  rw [CallGraph.methodAt_of_node hp, CallGraph.methodAt_of_node hx] at detour
  refine ⟨?_, detour, i, j, hp, hx, (CallGraph.mem_callers traced.valid).mpr hr,
    traced.callers_eq_nil hj⟩
  intro hmem
  exact hj (traced.started hd j ((traced.target_iff undotted hx).mpr hmem))

/-- A chain of caller hops within the depth bound is followed to its end, with all callers of the
last method recorded if it is nearer than the bound, or up to a method that is cut off. -/
theorem followed_or_cutOff (undotted : ∀ m ∈ c.methods ++ methods, m.Undotted) {s : MethodRef}
    {l : List MethodRef} (hs : s ∈ methods) (chain : Chain (c.Calls t.detector) s l m)
    (hl : l.length ≤ t.maxDepth) :
    (∃ i, (t.traceFrom c methods).graph.node? i = some m ∧ (l.length < t.maxDepth →
      (t.traceFrom c methods).graph.AllRecorded (c.callersOf t.detector) i)) ∨
    ∃ k p x r, l = k ++ x :: r ∧ Chain (c.Calls t.detector) s k p ∧
      Chain (c.Calls t.detector) x r m ∧ k.length + 1 < t.maxDepth ∧ t.CutOff c methods p x := by
  obtain ⟨searched, traced⟩ := t.traceFrom_traced c methods
  rcases Nat.eq_zero_or_pos t.maxDepth with hz | hd
  · have hnil : l = [] := List.length_eq_zero_iff.mp (by omega)
    subst hnil
    cases chain
    obtain ⟨i, _, hx⟩ := traced.indexes.exists_index hs
    exact .inl ⟨i, traced.node_of_index undotted (List.mem_append_right _ hs) hx, by omega⟩
  · rcases traced.followed_or_stopped undotted hd hs chain with
      ⟨i, hi, hm⟩ | ⟨k, p, x, r, i, j, he, hk, hxm, hp, hx, hj, hr⟩
    · exact .inl ⟨i, hm, fun _ => traced.allRecorded hi⟩
    · have length : l.length = k.length + (r.length + 1) := by
        rw [he, List.length_append, List.length_cons]
      by_cases hb : k.length + 1 < t.maxDepth
      · exact .inr ⟨k, p, x, r, he, hk, hxm, hb,
          t.cutOff_of_not_searched c traced undotted hd hj hp hx hr⟩
      · -- only the end of the chain lies as far away as the bound
        have hnil : r = [] := List.length_eq_zero_iff.mp (by omega)
        subst hnil
        cases hxm
        exact .inl ⟨j, hx, by omega⟩

/-- A method nearer than the bound whose callers are all recorded has none if it is cut off. -/
theorem CutOff.no_calls {t : Tracer} {c : Corpus} (cut : t.CutOff c methods p x)
    (hx : (t.traceFrom c methods).graph.node? i = some x)
    (all : (t.traceFrom c methods).graph.AllRecorded (c.callersOf t.detector) i) (n : MethodRef) :
    ¬c.Calls t.detector x n := by
  obtain ⟨searched, traced⟩ := t.traceFrom_traced c methods
  obtain ⟨_, _, _, j, _, hj, _, hnil⟩ := cut
  have hji : j = i := traced.valid.distinct hj hx rfl
  obtain ⟨m, hm, hs⟩ := all
  have hmx : m = x := Option.some.inj (hm.symm.trans hx)
  subst hji
  subst hmx
  intro hc
  have hmem := (hs n.signature).mpr ⟨hc.2, List.mem_map_of_mem hc.1⟩
  rw [hnil] at hmem
  exact List.not_mem_nil hmem

theorem allRecorded_of_no_calls {t : Tracer} {c : Corpus}
    (hx : (t.traceFrom c methods).graph.node? i = some x)
    (hnil : (t.traceFrom c methods).graph.callers i = [])
    (none : ∀ n, ¬c.Calls t.detector x n) :
    (t.traceFrom c methods).graph.AllRecorded (c.callersOf t.detector) i := by
  refine ⟨x, hx, ?_⟩
  intro s
  rw [hnil]
  constructor
  · intro hs
    exact absurd hs List.not_mem_nil
  · rintro ⟨hne, hs⟩
    obtain ⟨n, hn, rfl⟩ := List.mem_map.mp hs
    exact absurd ⟨hn, hne⟩ (none n)

/-- Where no method that is cut off has callers, each method on a chain within the bound has a
node, with all callers recorded if the chain is shorter than the bound. -/
theorem followed_of_cutOff_no_calls (undotted : ∀ m ∈ c.methods ++ methods, m.Undotted)
    (none : ∀ k, k + 1 < t.maxDepth → ∀ p x, c.Within t.detector methods k p →
      t.CutOff c methods p x → ∀ n, ¬c.Calls t.detector x n)
    {s : MethodRef} {l : List MethodRef} (hs : s ∈ methods)
    (chain : Chain (c.Calls t.detector) s l m) (hl : l.length ≤ t.maxDepth) :
    ∃ i, (t.traceFrom c methods).graph.node? i = some m ∧ (l.length < t.maxDepth →
      (t.traceFrom c methods).graph.AllRecorded (c.callersOf t.detector) i) := by
  rcases t.followed_or_cutOff c undotted hs chain hl with found | ⟨k, p, x, r, _, hk, hr, hb, cut⟩
  · exact found
  · have last := none k.length hb p x ⟨s, hs, k, hk, Nat.le_refl _⟩ cut
    obtain ⟨_, _, _, i, _, hi, _, hnil⟩ := cut
    cases hr with
    | nil => exact ⟨i, hi, fun _ => allRecorded_of_no_calls hi hnil last⟩
    | cons hop _ => exact absurd hop (last _)

theorem no_calls_or_cutOff (undotted : ∀ m ∈ c.methods ++ methods, m.Undotted)
    (hm : (t.traceFrom c methods).graph.node? i = some m) (hmem : m ∉ methods)
    (hnil : (t.traceFrom c methods).graph.callers i = []) :
    (∀ n, ¬c.Calls t.detector m n) ∨ ∃ p, t.CutOff c methods p m := by
  obtain ⟨searched, traced⟩ := t.traceFrom_traced c methods
  by_cases hi : i ∈ searched
  · exact .inl ((traced.callers_eq_nil_iff undotted hi hm).mp hnil)
  · obtain ⟨s, hs, l, hl, hb⟩ := traced.reached i (CallGraph.node_lt hm)
    by_cases he : l = []
    · subst he
      cases hl
      exact absurd ((traced.target_iff undotted hm).mp hs) hmem
    · have hd : 0 < t.maxDepth := Nat.lt_of_lt_of_le (List.length_pos_iff.mpr he) hb
      obtain ⟨_, q, _, _, hr⟩ := hl.last_hop he
      obtain ⟨p, hp⟩ := CallGraph.exists_node (traced.valid.joined hr).1
      exact .inr ⟨p, t.cutOff_of_not_searched c traced undotted hd hi hp hm hr⟩

/-- The graph is exact if and only if no method that is cut off near a target has a caller. Every
chain of caller hops is followed up to the bound or a method that is cut off, and an entry point
has no caller unless it is cut off. -/
theorem exact_iff_cutOff_no_calls (methods : List MethodRef)
    (undotted : ∀ m ∈ c.methods ++ methods, m.Undotted) :
    (t.Exact c methods ↔ ∀ k, k + 1 < t.maxDepth → ∀ p x, c.Within t.detector methods k p →
      t.CutOff c methods p x → ∀ n, ¬c.Calls t.detector x n) ∧
    (∀ s ∈ methods, ∀ l m, Chain (c.Calls t.detector) s l m → l.length ≤ t.maxDepth →
      (∃ i, (t.traceFrom c methods).graph.node? i = some m ∧ (l.length < t.maxDepth →
        (t.traceFrom c methods).graph.AllRecorded (c.callersOf t.detector) i)) ∨
      ∃ k p x r, l = k ++ x :: r ∧ Chain (c.Calls t.detector) s k p ∧
        Chain (c.Calls t.detector) x r m ∧ k.length + 1 < t.maxDepth ∧
        t.CutOff c methods p x) ∧
    ∀ e ∈ (t.traceFrom c methods).entries, ∀ m,
      (t.traceFrom c methods).graph.node? e.node = some m →
        (∀ n, ¬c.Calls t.detector m n) ∨ ∃ p, t.CutOff c methods p m := by
  refine ⟨⟨?_, ?_⟩, ?_, ?_⟩
  · intro full k hk p x hp cut
    obtain ⟨s, hs, l, hl, hb⟩ := hp
    have ⟨_, ⟨_, _, _, _, hop, _⟩, _⟩ := cut
    have near : c.Within t.detector methods (k + 1) x :=
      ⟨s, hs, l ++ [x], hl.concat hop, by simpa using hb⟩
    obtain ⟨i, hx, all⟩ := full.2 (k + 1) hk x near
    exact cut.no_calls hx all
  · intro none
    constructor
    · rintro m ⟨s, hs, l, hl, hb⟩
      obtain ⟨i, hm, _⟩ := t.followed_of_cutOff_no_calls c undotted none hs hl hb
      exact ⟨i, hm⟩
    · rintro k hk m ⟨s, hs, l, hl, hb⟩
      obtain ⟨i, hm, all⟩ := t.followed_of_cutOff_no_calls c undotted none hs hl (by omega)
      exact ⟨i, hm, all (by omega)⟩
  · intro s hs l m chain hl
    exact t.followed_or_cutOff c undotted hs chain hl
  · intro e he m hm
    obtain ⟨searched, traced⟩ := t.traceFrom_traced c methods
    rw [t.traceFrom_entries, ← t.traceFrom_graph, ← t.traceFrom_targets] at he
    obtain ⟨hmem, i, hi, hnil⟩ := (traced.exists_entry_iff undotted).mp ⟨e, he, hm⟩
    exact t.no_calls_or_cutOff c undotted hi hmem hnil

/-- With a bound of two hops nothing is cut off before the bound. -/
theorem shortcut_exact_two :
    (∀ m ∈ shortcut.methods ++ [⟨"T", "t"⟩], m.Undotted) ∧
    (bare 2).Exact shortcut [⟨"T", "t"⟩] := by
  have undotted : ∀ m ∈ shortcut.methods ++ [⟨"T", "t"⟩], m.Undotted := by decide +kernel
  refine ⟨undotted,
    (exact_iff_cutOff_no_calls (bare 2) shortcut [⟨"T", "t"⟩] undotted).1.mpr ?_⟩
  intro k hk p x hp cut
  have hz : k = 0 := by
    change k + 1 < 2 at hk
    omega
  subst hz
  exact absurd cut.2.1 (Corpus.not_detour_two hp)

/-- With three hops, `c` is cut off: it is met at the end of `t`, `a`, `b`, `c` only, and so `e` has
no node, though `t`, `b`, `c`, `e` is a chain of three hops. -/
theorem shortcut_not_exact :
    (∀ m ∈ shortcut.methods ++ [⟨"T", "t"⟩], m.Undotted) ∧
    ¬(bare 3).Exact shortcut [⟨"T", "t"⟩] := by
  refine ⟨by decide +kernel, ?_⟩
  intro full
  have hop : ∀ m n, n ∈ shortcut.callersOf ⟨[]⟩ m.methodName → n.signature ≠ m.signature →
      shortcut.Calls ⟨[]⟩ m n := fun _ _ h hne => ⟨h, hne⟩
  have chain : Chain (shortcut.Calls ⟨[]⟩) ⟨"T", "t"⟩ [⟨"B", "b"⟩, ⟨"C", "c"⟩, ⟨"E", "e"⟩]
      ⟨"E", "e"⟩ :=
    .cons (hop _ _ (by decide +kernel) (by decide +kernel))
      (.cons (hop _ _ (by decide +kernel) (by decide +kernel))
        (.cons (hop _ _ (by decide +kernel) (by decide +kernel)) (.nil _)))
  obtain ⟨i, hi⟩ := full.1 ⟨"E", "e"⟩ ⟨⟨"T", "t"⟩, List.mem_cons_self, _, chain, by decide⟩
  have absent : ∀ i < ((bare 3).traceFrom shortcut [⟨"T", "t"⟩]).graph.nodeCount,
      ((bare 3).traceFrom shortcut [⟨"T", "t"⟩]).graph.node? i ≠ some ⟨"E", "e"⟩ := by
    decide +kernel
  exact absent i (CallGraph.node_lt hi) hi

end Tracer

end AppSurface
