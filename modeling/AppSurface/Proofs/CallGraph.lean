import AppSurface.CallGraph
import AppSurface.Proofs.AdjacencyGraph
import Mathlib.Algebra.GroupWithZero.Nat
import Mathlib.Data.List.Flatten
import Mathlib.Data.List.Sort
import Std.Data.TreeMap.Lemmas

namespace AppSurface

theorem sortIndices_eq (is : List Nat) : sortIndices is = is.insertionSort (· ≤ ·) := by
  have insert : ∀ i js, insertIndex i js = js.orderedInsert (· ≤ ·) i := by
    intro i js
    induction js with
    | nil => rfl
    | cons j js ih => rw [insertIndex, ih, List.orderedInsert_cons]
  induction is with
  | nil => rfl
  | cons i is ih => rw [sortIndices, List.foldr_cons, insert, ← sortIndices, ih]; rfl

theorem mem_sortIndices {i : Nat} {is : List Nat} : i ∈ sortIndices is ↔ i ∈ is := by
  rw [sortIndices_eq, List.mem_insertionSort]

theorem ascending_sortIndices {is : List Nat} (nodup : is.Nodup) :
    (sortIndices is).Pairwise (· < ·) := by
  rw [sortIndices_eq]
  have apart := (List.perm_insertionSort (· ≤ ·) is).nodup_iff.mpr nodup
  refine ((List.pairwise_insertionSort (· ≤ ·) is).and apart).imp ?_
  rintro i j ⟨hle, hne⟩
  exact Nat.lt_of_le_of_ne hle hne

namespace CallGraph

open AdjacencyGraph (Linked Added)

variable {g h k : CallGraph} {i j : Nat} {m : MethodRef} {n : CallNode} {s : String}

/-- The node `caller` is recorded as a caller of the node `callee`. -/
def Recorded (g : CallGraph) (callee caller : Nat) : Prop := (callee, caller) ∈ g.edges

/-- Every node is stored under the signature of its method, the index has the signatures of the
nodes and no other, and an edge joins two different nodes and is recorded once. -/
structure Valid (g : CallGraph) : Prop where
  linked : g.arena.Linked
  signed : ∀ {i n}, g.stored? i = some n → n.signature = n.method.signature
  indexed : ∀ {s i}, g.index? s = some i ↔ ∃ n, g.stored? i = some n ∧ n.signature = s
  loopless : ∀ {i j}, g.Recorded i j → i ≠ j
  nodup : g.edges.Nodup

/-- Every node of `g` stands in `h` under the same index, and every edge of `g` is one of `h`. -/
structure Grows (g h : CallGraph) : Prop where
  stored : ∀ {i n}, g.stored? i = some n → h.stored? i = some n
  edge : ∀ {i j}, g.Recorded i j → h.Recorded i j

/-- `is` are the indices of the nodes of `ms`, in order. -/
def Indexes (g : CallGraph) (ms : List MethodRef) (is : List Nat) : Prop :=
  ms.map (fun m => g.index? m.signature) = is.map some

theorem node?_eq_some_iff_stored :
    g.node? i = some m ↔ ∃ n, g.stored? i = some n ∧ n.method = m := Option.map_eq_some_iff

theorem Valid.joined (valid : g.Valid) (hr : g.Recorded i j) :
    i < g.nodeCount ∧ j < g.nodeCount := valid.linked.joined (i, j) hr

theorem Grows.node (grows : g.Grows h) (hm : g.node? i = some m) : h.node? i = some m := by
  obtain ⟨n, hn, he⟩ := node?_eq_some_iff_stored.mp hm
  exact node?_eq_some_iff_stored.mpr ⟨n, grows.stored hn, he⟩

theorem Grows.refl (g : CallGraph) : g.Grows g := ⟨id, id⟩

theorem Grows.trans (first : g.Grows h) (second : h.Grows k) : g.Grows k :=
  ⟨fun hn => second.stored (first.stored hn), fun he => second.edge (first.edge he)⟩

theorem stored_lt (hn : g.stored? i = some n) : i < g.nodeCount :=
  AdjacencyGraph.weight?_isSome.mp (Option.isSome_of_eq_some hn)

theorem node_lt (hm : g.node? i = some m) : i < g.nodeCount := by
  obtain ⟨n, hn, _⟩ := node?_eq_some_iff_stored.mp hm
  exact stored_lt hn

theorem exists_stored (hi : i < g.nodeCount) : ∃ n, g.stored? i = some n :=
  Option.isSome_iff_exists.mp (AdjacencyGraph.weight?_isSome.mpr hi)

theorem exists_node (hi : i < g.nodeCount) : ∃ m, g.node? i = some m := by
  obtain ⟨n, hn⟩ := exists_stored hi
  exact ⟨n.method, node?_eq_some_iff_stored.mpr ⟨n, hn, rfl⟩⟩

theorem Grows.nodeCount_le (grows : g.Grows h) : g.nodeCount ≤ h.nodeCount := by
  rcases Nat.eq_zero_or_pos g.nodeCount with hz | hp
  · omega
  · obtain ⟨m, hm⟩ := exists_node (show g.nodeCount - 1 < g.nodeCount by omega)
    have := node_lt (grows.node hm)
    omega

theorem index?_eq_some_iff (valid : g.Valid) :
    g.index? s = some i ↔ ∃ m, g.node? i = some m ∧ m.signature = s := by
  rw [valid.indexed]
  constructor
  · rintro ⟨n, hn, hs⟩
    exact ⟨n.method, node?_eq_some_iff_stored.mpr ⟨n, hn, rfl⟩, (valid.signed hn).symm.trans hs⟩
  · rintro ⟨m, hm, hs⟩
    obtain ⟨n, hn, rfl⟩ := node?_eq_some_iff_stored.mp hm
    exact ⟨n, hn, (valid.signed hn).trans hs⟩

theorem index?_eq_none_iff (valid : g.Valid) :
    g.index? s = none ↔ ∀ i m, g.node? i = some m → m.signature ≠ s := by
  rw [Option.eq_none_iff_forall_ne_some]
  constructor
  · intro none i m hm hs
    exact none i ((index?_eq_some_iff valid).mpr ⟨m, hm, hs⟩)
  · intro none i hi
    obtain ⟨m, hm, hs⟩ := (index?_eq_some_iff valid).mp hi
    exact none i m hm hs

theorem index?_signature (valid : g.Valid) (hm : g.node? i = some m) :
    g.index? m.signature = some i :=
  (index?_eq_some_iff valid).mpr ⟨m, hm, rfl⟩

/-- The index has one entry for a signature, so no two nodes share it. -/
theorem Valid.distinct (valid : g.Valid) {m m' : MethodRef} (hm : g.node? i = some m)
    (hm' : g.node? j = some m') (same : m.signature = m'.signature) : i = j := by
  have first := index?_signature valid hm
  rw [same, index?_signature valid hm'] at first
  exact (Option.some.inj first).symm

theorem Grows.index (grows : g.Grows h) (valid : g.Valid) (valid' : h.Valid)
    (hi : g.index? s = some i) : h.index? s = some i := by
  obtain ⟨m, hm, hs⟩ := (index?_eq_some_iff valid).mp hi
  exact (index?_eq_some_iff valid').mpr ⟨m, grows.node hm, hs⟩

theorem Indexes.exists_index {ms : List MethodRef} {is : List Nat} (indexes : g.Indexes ms is)
    (hm : m ∈ ms) : ∃ i ∈ is, g.index? m.signature = some i := by
  have h : g.index? m.signature ∈ is.map some :=
    indexes ▸ List.mem_map.mpr ⟨m, hm, rfl⟩
  obtain ⟨i, hi, he⟩ := List.mem_map.mp h
  exact ⟨i, hi, he.symm⟩

theorem Indexes.exists_method {ms : List MethodRef} {is : List Nat} (indexes : g.Indexes ms is)
    (hi : i ∈ is) : ∃ m ∈ ms, g.index? m.signature = some i := by
  have h : some i ∈ ms.map fun m => g.index? m.signature :=
    indexes ▸ List.mem_map_of_mem hi
  exact List.mem_map.mp h

theorem Indexes.mono {ms : List MethodRef} {is : List Nat} (indexes : g.Indexes ms is)
    (grows : g.Grows h) (valid : g.Valid) (valid' : h.Valid) : h.Indexes ms is := by
  refine Eq.trans (List.map_congr_left ?_) indexes
  intro m hm
  obtain ⟨i, _, hi⟩ := indexes.exists_index hm
  rw [hi, grows.index valid valid' hi]

theorem signatureAt_of_stored (hn : g.stored? i = some n) : g.signatureAt i = n.signature := by
  simp [signatureAt, hn]

theorem signatureAt_of_node (valid : g.Valid) (hm : g.node? i = some m) :
    g.signatureAt i = m.signature := by
  obtain ⟨n, hn, rfl⟩ := node?_eq_some_iff_stored.mp hm
  rw [signatureAt_of_stored hn, valid.signed hn]

theorem signatureAt_inj (valid : g.Valid) (hi : i < g.nodeCount) (hj : j < g.nodeCount)
    (h : g.signatureAt i = g.signatureAt j) : i = j := by
  obtain ⟨m, hm⟩ := exists_node hi
  obtain ⟨m', hm'⟩ := exists_node hj
  rw [signatureAt_of_node valid hm, signatureAt_of_node valid hm'] at h
  exact valid.distinct hm hm' h

/-- The index answers as a search of the nodes does. -/
theorem index?_eq_find? (valid : g.Valid) (s : String) :
    g.index? s = g.indices.find? fun i => g.signatureAt i == s := by
  cases hi : g.index? s with
  | none =>
    symm
    apply List.find?_eq_none.mpr
    intro i hi' same
    obtain ⟨m, hm⟩ := exists_node (List.mem_range.mp hi')
    rw [beq_iff_eq, signatureAt_of_node valid hm] at same
    exact (index?_eq_none_iff valid).mp hi i m hm same
  | some i =>
    obtain ⟨n, hn, hs⟩ := valid.indexed.mp hi
    have own := signatureAt_of_stored hn
    symm
    rw [indices, List.find?_range_eq_some]
    refine ⟨by rw [beq_iff_eq, own, hs], List.mem_range.mpr (stored_lt hn), ?_⟩
    intro j hj
    simp only [Bool.not_eq_true', beq_eq_false_iff_ne]
    intro same
    have := signatureAt_inj valid (Nat.lt_trans hj (stored_lt hn)) (stored_lt hn)
      (same.trans (hs.symm.trans own.symm))
    omega

/-- The nodes listed as callers are the recorded ones. -/
theorem mem_callers (valid : g.Valid) : j ∈ g.callers i ↔ g.Recorded i j := by
  rw [callers, mem_sortIndices, valid.linked.mem_outgoing, Recorded, edges]

/-- The callees of a node are the nodes it is a recorded caller of. -/
theorem mem_callees (valid : g.Valid) : i ∈ g.callees j ↔ g.Recorded i j := by
  rw [callees, mem_sortIndices, valid.linked.mem_incoming, Recorded, edges]

theorem lt_of_mem_callers (valid : g.Valid) (h : j ∈ g.callers i) : j < g.nodeCount :=
  (valid.joined ((mem_callers valid).mp h)).2

theorem ascending_callers (valid : g.Valid) (i : Nat) : (g.callers i).Pairwise (· < ·) :=
  ascending_sortIndices (valid.linked.nodup_neighbours valid.nodup _ i)

theorem ascending_callees (valid : g.Valid) (i : Nat) : (g.callees i).Pairwise (· < ·) :=
  ascending_sortIndices (valid.linked.nodup_neighbours valid.nodup _ i)

theorem nodup_callers (valid : g.Valid) (i : Nat) : (g.callers i).Nodup :=
  (ascending_callers valid i).imp Nat.ne_of_lt

/-- The edges are the recorded callers of one node after the other. -/
theorem edges_perm (valid : g.Valid) :
    g.edges.Perm (g.indices.flatMap fun i => (g.callers i).map fun j => (i, j)) := by
  apply (List.perm_ext_iff_of_nodup valid.nodup ?_).mpr
  · rintro ⟨i, j⟩
    simp only [List.mem_flatMap, List.mem_map, Prod.mk.injEq, mem_callers valid]
    constructor
    · intro he
      exact ⟨i, List.mem_range.mpr (valid.joined he).1, j, he, rfl, rfl⟩
    · rintro ⟨_, _, _, he, rfl, rfl⟩
      exact he
  · apply List.nodup_flatMap.mpr
    constructor
    · intro i _
      exact (nodup_callers valid i).map fun _ _ same => (Prod.mk.inj same).2
    · refine List.nodup_range.imp ?_
      intro i k hik p hi hk
      obtain ⟨_, _, rfl⟩ := List.mem_map.mp hi
      obtain ⟨_, _, same⟩ := List.mem_map.mp hk
      exact hik (Prod.mk.inj same).1.symm

theorem edgeCount_eq_sum (valid : g.Valid) :
    g.edgeCount = (g.indices.map fun i => (g.callers i).length).sum := by
  rw [edgeCount, (edges_perm valid).length_eq, List.length_flatMap]
  simp only [List.length_map]

theorem nodup_callerSignatures (valid : g.Valid) (i : Nat) :
    ((g.callers i).map g.signatureAt).Nodup := by
  apply (nodup_callers valid i).map_on
  intro j hj k hk same
  exact signatureAt_inj valid (lt_of_mem_callers valid hj) (lt_of_mem_callers valid hk) same

@[simp] theorem empty_stored? (i : Nat) : empty.stored? i = none := rfl

@[simp] theorem empty_node? (i : Nat) : empty.node? i = none := rfl

theorem empty_valid : empty.Valid where
  linked := AdjacencyGraph.empty_linked
  signed := by simp
  indexed := by
    intro s i
    rw [index?, empty_stored?, empty, Std.TreeMap.getElem?_emptyc]
    simp
  loopless := by simp [Recorded, edges, empty, AdjacencyGraph.empty]
  nodup := List.nodup_nil

theorem ensure_of_index (hi : g.index? m.signature = some i) : g.ensure m = (i, g) := by
  simp [ensure, hi]

section New

variable (hi : g.index? m.signature = none)
include hi

theorem ensure_of_new : g.ensure m = (g.nodeCount,
    ⟨(g.arena.addNode (.ofMethod m)).2, g.idIndex.insert m.signature g.nodeCount⟩) := by
  simp [ensure, hi, AdjacencyGraph.addNode, nodeCount]

theorem ensure_stored?_of_new (p : Nat) : (g.ensure m).2.stored? p =
    if p = g.nodeCount then some (.ofMethod m) else g.stored? p := by
  rw [ensure_of_new hi]
  exact AdjacencyGraph.addNode_weight? _ _ p

theorem ensure_index?_of_new (s : String) : (g.ensure m).2.index? s =
    if m.signature = s then some g.nodeCount else g.index? s := by
  rw [ensure_of_new hi]
  simp only [index?, Std.TreeMap.getElem?_insert, Std.compare_eq_iff_eq]

end New

theorem ensure_edges (g : CallGraph) (m : MethodRef) : (g.ensure m).2.edges = g.edges := by
  cases hi : g.index? m.signature with
  | none => rw [ensure_of_new hi]; rfl
  | some i => rw [ensure_of_index hi]

/-- The only node that may be new is that of the method asked for. -/
theorem ensure_stored (hn : (g.ensure m).2.stored? i = some n) :
    g.stored? i = some n ∨ i = (g.ensure m).1 ∧ n = .ofMethod m := by
  cases hi : g.index? m.signature with
  | some j => exact .inl (by simpa [ensure_of_index hi] using hn)
  | none =>
    rw [ensure_stored?_of_new hi] at hn
    split at hn
    next he => exact .inr ⟨by rw [he, ensure_of_new hi], (Option.some.inj hn).symm⟩
    next => exact .inl hn

theorem ensure_node {m' : MethodRef} (hm : (g.ensure m).2.node? i = some m') :
    g.node? i = some m' ∨ i = (g.ensure m).1 ∧ m' = m := by
  obtain ⟨n, hn, rfl⟩ := node?_eq_some_iff_stored.mp hm
  rcases ensure_stored hn with hn | ⟨hi, rfl⟩
  · exact .inl (node?_eq_some_iff_stored.mpr ⟨n, hn, rfl⟩)
  · exact .inr ⟨hi, rfl⟩

theorem ensure_grows (g : CallGraph) (m : MethodRef) : g.Grows (g.ensure m).2 := by
  refine ⟨?_, fun he => by rw [Recorded, ensure_edges]; exact he⟩
  intro i n hn
  cases hi : g.index? m.signature with
  | some j => simpa [ensure_of_index hi] using hn
  | none =>
    have old : i ≠ g.nodeCount := Nat.ne_of_lt (stored_lt hn)
    rw [ensure_stored?_of_new hi, if_neg old]
    exact hn

theorem ensure_valid (valid : g.Valid) (m : MethodRef) : (g.ensure m).2.Valid := by
  cases hi : g.index? m.signature with
  | some j => simpa [ensure_of_index hi] using valid
  | none =>
    have recorded : ∀ {i j}, (g.ensure m).2.Recorded i j → g.Recorded i j := by
      intro i j he
      rwa [Recorded, ensure_edges] at he
    refine ⟨?_, ?_, ?_, fun he => valid.loopless (recorded he), by
      rw [ensure_edges]; exact valid.nodup⟩
    · rw [ensure_of_new hi]
      exact AdjacencyGraph.addNode_linked valid.linked _
    · intro i n hn
      rcases ensure_stored hn with hn | ⟨_, rfl⟩
      · exact valid.signed hn
      · rfl
    · intro s i
      rw [ensure_index?_of_new hi, ensure_stored?_of_new hi]
      by_cases hp : i = g.nodeCount
      · have absent : g.index? s ≠ some i := by
          intro he
          obtain ⟨n, hn, _⟩ := valid.indexed.mp he
          exact absurd (stored_lt hn) (by omega)
        rw [if_pos hp, ← hp]
        by_cases hs : m.signature = s <;> simp [hs, absent, CallNode.ofMethod]
      · rw [if_neg hp, ← valid.indexed]
        by_cases hs : m.signature = s
        · rw [if_pos hs, ← hs, hi]
          simp [Ne.symm hp]
        · rw [if_neg hs]

theorem ensure_index (g : CallGraph) (m : MethodRef) :
    (g.ensure m).2.index? m.signature = some (g.ensure m).1 := by
  cases hi : g.index? m.signature with
  | some j => rw [ensure_of_index hi]; exact hi
  | none => rw [ensure_index?_of_new hi, if_pos rfl, ensure_of_new hi]

/-- The indices of the methods asked for, in order, and a graph that has only their nodes added. -/
theorem ensureAll_spec (valid : g.Valid) (ms : List MethodRef) :
    (g.ensureAll ms).2.Valid ∧ g.Grows (g.ensureAll ms).2 ∧
      (g.ensureAll ms).2.edges = g.edges ∧
      (g.ensureAll ms).2.Indexes ms (g.ensureAll ms).1 ∧
      ∀ i n, (g.ensureAll ms).2.node? i = some n →
        g.node? i = some n ∨ i ∈ (g.ensureAll ms).1 ∧ n ∈ ms := by
  induction ms generalizing g with
  | nil => exact ⟨valid, .refl g, rfl, rfl, fun i n hn => .inl hn⟩
  | cons m ms ih =>
    have valid' := ensure_valid valid m
    obtain ⟨hv, hg, he, hf, hn⟩ := ih valid'
    refine ⟨hv, (ensure_grows g m).trans hg, he.trans (ensure_edges g m), ?_, ?_⟩
    · exact List.cons_eq_cons.mpr ⟨hg.index valid' hv (ensure_index g m), hf⟩
    · intro i n hi
      rcases hn i n hi with hi | ⟨hi, hm⟩
      · rcases ensure_node hi with hi | ⟨hi, hm⟩
        · exact .inl hi
        · exact .inr ⟨by simp [ensureAll, hi], by simp [hm]⟩
      · exact .inr ⟨List.mem_cons_of_mem _ hi, List.mem_cons_of_mem _ hm⟩

/-- A caller was recorded: it is a new one, and nothing changes but for its edge. -/
structure Extended (g : CallGraph) (i j : Nat) (h : CallGraph) : Prop where
  distinct : i ≠ j
  fresh : ¬g.Recorded i j
  index : h.idIndex = g.idIndex
  added : g.arena.Added (i, j) h.arena

/-- Asked to record a caller, a graph says no, refuses an index without a node, or is extended. -/
theorem addCaller?_cases (valid : g.Valid) (i j : Nat) :
    g.addCaller? i j = some (false, g) ∧ (i = j ∨ g.Recorded i j) ∨
    g.addCaller? i j = none ∧ ¬(i < g.nodeCount ∧ j < g.nodeCount) ∨
    ∃ h, g.addCaller? i j = some (true, h) ∧ g.Extended i j h := by
  unfold addCaller?
  by_cases known : i = j ∨ g.Recorded i j
  · have test : (i == j || g.arena.hasEdge (i, j)) = true := by
      simpa [valid.linked.hasEdge_iff, Recorded, edges] using known
    exact .inl ⟨if_pos test, known⟩
  · have test : ¬(i == j || g.arena.hasEdge (i, j)) = true := by
      simpa [valid.linked.hasEdge_iff, Recorded, edges] using known
    obtain ⟨distinct, fresh⟩ := not_or.mp known
    rw [if_neg test]
    cases ha : g.arena.addEdge? (i, j) with
    | none =>
      refine .inr (.inl ⟨rfl, ?_⟩)
      rintro ⟨hi, hj⟩
      obtain ⟨arena, some⟩ := AdjacencyGraph.exists_addEdge? (g := g.arena) hi hj
      rw [some] at ha
      cases ha
    | some arena =>
      exact .inr (.inr ⟨_, rfl, distinct, fresh, rfl, AdjacencyGraph.added_of_addEdge? ha⟩)

namespace Extended

variable (extended : g.Extended i j h)
include extended

theorem inside : i < g.nodeCount ∧ j < g.nodeCount :=
  ⟨extended.added.source, extended.added.target⟩

theorem stored? (p : Nat) : h.stored? p = g.stored? p := extended.added.weight p

theorem node? (p : Nat) : h.node? p = g.node? p := congrArg _ (extended.stored? p)

theorem nodeCount : h.nodeCount = g.nodeCount := extended.added.count

theorem index? (s : String) : h.index? s = g.index? s := by
  rw [CallGraph.index?, CallGraph.index?, extended.index]

theorem edges : h.edges = g.edges ++ [(i, j)] := extended.added.edges

theorem recorded {p q : Nat} : h.Recorded p q ↔ g.Recorded p q ∨ p = i ∧ q = j := by
  rw [Recorded, extended.edges, List.mem_append, List.mem_singleton, Prod.mk.injEq, Recorded]

theorem edgeCount : h.edgeCount = g.edgeCount + 1 := by
  rw [CallGraph.edgeCount, extended.edges, List.length_append, CallGraph.edgeCount,
    List.length_singleton]

theorem grows : g.Grows h :=
  ⟨fun hn => (extended.stored? _).trans hn, fun he => extended.recorded.mpr (.inl he)⟩

theorem valid (valid : g.Valid) : h.Valid where
  linked := extended.added.linked valid.linked
  signed hn := valid.signed ((extended.stored? _).symm.trans hn)
  indexed := by
    intro s p
    rw [extended.index?, extended.stored?]
    exact valid.indexed
  loopless he := by
    rcases extended.recorded.mp he with he | ⟨rfl, rfl⟩
    · exact valid.loopless he
    · exact extended.distinct
  nodup := by
    rw [extended.edges]
    refine List.nodup_append.mpr ⟨valid.nodup, List.nodup_singleton _, ?_⟩
    rintro e he _ hlast rfl
    rw [List.mem_singleton.mp hlast] at he
    exact extended.fresh he

end Extended

/-- A graph in which two different nodes can be linked. -/
structure Linkable (g : CallGraph) (i j : Nat) : Prop where
  valid : g.Valid
  distinct : i ≠ j
  source : i < g.nodeCount
  target : j < g.nodeCount

namespace Linkable

variable (linkable : g.Linkable i j)
include linkable

theorem link_cases : g.link i j = g ∧ g.Recorded i j ∨ g.Extended i j (g.link i j) := by
  unfold link
  rcases addCaller?_cases linkable.valid i j with ⟨ha, known⟩ | ⟨_, outside⟩ | ⟨h, ha, extended⟩
  · rw [ha]
    exact .inl ⟨rfl, known.resolve_left linkable.distinct⟩
  · exact absurd ⟨linkable.source, linkable.target⟩ outside
  · rw [ha]
    exact .inr extended

theorem node? (p : Nat) : (g.link i j).node? p = g.node? p := by
  rcases linkable.link_cases with ⟨same, _⟩ | extended
  · rw [same]
  · exact extended.node? p

theorem nodeCount : (g.link i j).nodeCount = g.nodeCount := by
  rcases linkable.link_cases with ⟨same, _⟩ | extended
  · rw [same]
  · exact extended.nodeCount

theorem index? (s : String) : (g.link i j).index? s = g.index? s := by
  rcases linkable.link_cases with ⟨same, _⟩ | extended
  · rw [same]
  · exact extended.index? s

/-- Linking records one of the nodes as a caller of the other, and no more. -/
theorem recorded {p q : Nat} :
    (g.link i j).Recorded p q ↔ g.Recorded p q ∨ p = i ∧ q = j := by
  rcases linkable.link_cases with ⟨same, known⟩ | extended
  · rw [same]
    refine ⟨.inl, ?_⟩
    rintro (h | ⟨rfl, rfl⟩)
    · exact h
    · exact known
  · exact extended.recorded

theorem grows : g.Grows (g.link i j) := by
  rcases linkable.link_cases with ⟨same, _⟩ | extended
  · rw [same]
    exact .refl g
  · exact extended.grows

theorem valid_link : (g.link i j).Valid := by
  rcases linkable.link_cases with ⟨same, _⟩ | extended
  · rw [same]
    exact linkable.valid
  · exact extended.valid linkable.valid

end Linkable

end CallGraph

end AppSurface
