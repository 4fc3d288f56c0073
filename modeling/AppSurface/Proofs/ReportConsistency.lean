import AppSurface.Report
import AppSurface.Proofs.CallerTree
import AppSurface.Proofs.MethodGraph
import AppSurface.Proofs.SimilarNames

namespace AppSurface

/-- What a reader of a report can rely on; `limit` bounds the number of suggestions. -/
structure Report.Consistent (r : Report) (limit : Nat) : Prop where
  distinct : (r.nodes.map (·.signature)).Nodup
  callers : ∀ n ∈ r.nodes, n.signature ∉ n.callers ∧ n.callers.Nodup ∧
    ∀ s ∈ n.callers, s ∈ r.nodes.map (·.signature)
  stats : r.stats =
    { nodes := r.nodes.length
      edges := (r.nodes.map fun n => n.callers.length).sum
      targets := r.targets.length
      entryPoints := r.entryPoints.length
      exportedEntryPoints := (r.entryPoints.filter fun e => e.exported.isSome).length }
  entries : r.entryPoints.map (·.signature) =
    (r.nodes.filter fun n => n.callers.isEmpty && !r.targets.contains n.signature).map (·.signature)
  targets : ∀ s ∈ r.targets, s ∈ r.nodes.map (·.signature)
  trees : r.callerTrees.map (·.signature) = r.targets
  success : r.success = true → r.targets ≠ [] ∧ r.suggestions = []
  failure : r.success = false → r.targets = [] ∧ r.entryPoints = [] ∧ r.callerTrees = [] ∧
    r.nodes = [] ∧ r.suggestions.length ≤ limit

/-- What a report says of a node. -/
def CallGraph.nodeReport (g : CallGraph) (i : Nat) : NodeReport :=
  ⟨g.signatureAt i, (g.methodAt i).className, (g.methodAt i).methodName,
    (g.callers i).map g.signatureAt⟩

namespace Trace

variable {tr : Trace} {t : Tracer} {query path : String} {limit : Nat}

theorem nodeReports_eq (tr : Trace) :
    tr.nodeReports = tr.graph.indices.map tr.graph.nodeReport := by
  apply List.ext_getElem
  · simp [nodeReports, CallGraph.indices, CallGraph.nodeCount, CallGraph.nodes,
      AdjacencyGraph.length_weights]
  · intro i hi _
    have inside : i < tr.graph.nodes.length := by simpa [nodeReports] using hi
    have stored : tr.graph.stored? i = some tr.graph.nodes[i] :=
      (AdjacencyGraph.getElem?_weights _ i).symm.trans (List.getElem?_eq_getElem inside)
    have node : tr.graph.node? i = some tr.graph.nodes[i].method :=
      CallGraph.node?_eq_some_iff_stored.mpr ⟨_, stored, rfl⟩
    simp [nodeReports, CallGraph.indices, CallGraph.nodeReport, CallGraph.methodAt_of_node node,
      CallGraph.signatureAt_of_stored stored]

theorem nodeReports_signatures (tr : Trace) :
    tr.nodeReports.map (·.signature) = tr.graph.indices.map tr.graph.signatureAt := by
  rw [nodeReports_eq, List.map_map]
  rfl

section Consistent

variable (valid : tr.graph.Valid)
include valid

theorem nodup_nodeSignatures : (tr.graph.indices.map tr.graph.signatureAt).Nodup := by
  refine List.nodup_range.map_on ?_
  intro i hi j hj same
  exact CallGraph.signatureAt_inj valid (List.mem_range.mp hi) (List.mem_range.mp hj) same

theorem nodeReports_callers {n : NodeReport} (hn : n ∈ tr.nodeReports) :
    n.signature ∉ n.callers ∧ n.callers.Nodup ∧
      ∀ s ∈ n.callers, s ∈ tr.nodeReports.map (·.signature) := by
  rw [nodeReports_eq] at hn
  obtain ⟨i, hi, rfl⟩ := List.mem_map.mp hn
  rw [nodeReports_signatures]
  refine ⟨?_, CallGraph.nodup_callerSignatures valid i, ?_⟩
  · intro own
    obtain ⟨j, hj, same⟩ := List.mem_map.mp own
    have hji := CallGraph.signatureAt_inj valid (CallGraph.lt_of_mem_callers valid hj)
      (List.mem_range.mp hi) same
    exact valid.loopless ((CallGraph.mem_callers valid).mp hj) hji.symm
  · intro s hs
    obtain ⟨j, hj, rfl⟩ := List.mem_map.mp hs
    exact List.mem_map_of_mem (List.mem_range.mpr (CallGraph.lt_of_mem_callers valid hj))

theorem edgeCount_eq_callers :
    tr.graph.edgeCount = (tr.nodeReports.map fun n => n.callers.length).sum := by
  rw [CallGraph.edgeCount_eq_sum valid, nodeReports_eq, List.map_map]
  simp only [Function.comp_def, CallGraph.nodeReport, List.length_map]

variable (inside : ∀ i ∈ tr.targets, i < tr.graph.nodeCount)
include inside

/-- A node is a target exactly if its signature is that of a target. -/
theorem contains_signature {i : Nat} (hi : i < tr.graph.nodeCount) :
    (tr.targets.map tr.graph.signatureAt).contains (tr.graph.signatureAt i) =
      tr.targets.contains i := by
  rw [Bool.eq_iff_iff]
  simp only [List.contains_eq_mem, decide_eq_true_eq, List.mem_map]
  constructor
  · rintro ⟨j, hj, same⟩
    rwa [← CallGraph.signatureAt_inj valid (inside j hj) hi same]
  · intro hmem
    exact ⟨i, hmem, rfl⟩

theorem entryReports_signatures (entries : tr.entries = t.entryPoints tr.graph tr.targets) :
    tr.entryReports.map (·.signature) =
      (tr.nodeReports.filter fun n =>
        n.callers.isEmpty && !(tr.targets.map tr.graph.signatureAt).contains n.signature).map
          (·.signature) := by
  rw [entryReports, entries, Tracer.entryPoints, nodeReports_eq, List.filter_map]
  simp only [List.map_map, Function.comp_def, CallGraph.nodeReport, List.isEmpty_map]
  congr 1
  apply List.filter_congr
  intro i hi
  rw [contains_signature valid inside (List.mem_range.mp hi), Bool.and_comm]

/-- A trace whose targets are nodes of its graph and whose entry points are those of the graph has a
consistent report, if it has targets or stopped short of a graph. -/
theorem report_consistent_of_valid (entries : tr.entries = t.entryPoints tr.graph tr.targets)
    (hit : tr.success = true → tr.targets ≠ [] ∧ tr.suggestions = [])
    (miss : tr.success = false → tr.graph = .empty ∧ tr.targets = [] ∧
      tr.suggestions.length ≤ limit) :
    (tr.report query path).Consistent limit where
  distinct := by
    rw [report, nodeReports_signatures]
    exact nodup_nodeSignatures valid
  callers _ hn := nodeReports_callers valid hn
  stats := by
    have count : tr.graph.nodeCount = tr.nodeReports.length := by
      rw [nodeReports_eq, List.length_map, CallGraph.indices, List.length_range]
    have exported : (tr.entries.filter fun e => e.exported.isSome).length =
        (tr.entryReports.filter fun e => e.exported.isSome).length := by
      rw [entryReports, List.filter_map, List.length_map]
      rfl
    simp only [report, Stats.mk.injEq]
    exact ⟨count, edgeCount_eq_callers valid, (List.length_map _).symm,
      (List.length_map _).symm, exported⟩
  entries := entryReports_signatures valid inside entries
  targets s hs := by
    obtain ⟨i, hi, rfl⟩ := List.mem_map.mp hs
    rw [report, nodeReports_signatures]
    exact List.mem_map_of_mem (List.mem_range.mpr (inside i hi))
  trees := by
    rw [report, callerTrees, List.map_map]
    exact List.map_congr_left fun i _ => CallerTree.ofTarget_signature tr.graph i
  success h := by
    obtain ⟨some, none⟩ := hit h
    exact ⟨fun nil => some (List.map_eq_nil_iff.mp nil), none⟩
  failure h := by
    obtain ⟨graph, targets, few⟩ := miss h
    simp [report, entryReports, entries, Tracer.entryPoints, callerTrees, nodeReports_eq, targets,
      graph, CallGraph.indices, CallGraph.nodeCount, CallGraph.empty, AdjacencyGraph.nodeCount,
      AdjacencyGraph.empty, few]

end Consistent

end Trace

theorem length_similarAmong_le {query : String} {limit : Nat} {kept names : List String}
    (few : kept.length ≤ limit) : (similarAmong query limit kept names).length ≤ limit := by
  rw [similarAmong_eq, List.length_append, List.length_take]
  omega

namespace Tracer

theorem traceFrom_consistent (t : Tracer) (c : Corpus) (methods : List MethodRef)
    {query path : String} :
    ((t.traceFrom c methods).report query path).Consistent t.suggestionLimit := by
  obtain ⟨_, traced⟩ := t.traceFrom_traced c methods
  have entries : (t.traceFrom c methods).entries =
      t.entryPoints (t.traceFrom c methods).graph (t.traceFrom c methods).targets := by
    rw [t.traceFrom_entries, ← t.traceFrom_graph, ← t.traceFrom_targets]
  refine Trace.report_consistent_of_valid traced.valid (fun _ hi => traced.target_lt hi) entries
    ?_ ?_
  · intro _
    cases methods with
    | nil => contradiction
    | cons m ms =>
      obtain ⟨i, hi, _⟩ := traced.indexes.exists_index List.mem_cons_self
      exact ⟨List.ne_nil_of_mem hi, rfl⟩
  · intro missed
    cases methods with
    | nil => exact ⟨rfl, rfl, Nat.zero_le _⟩
    | cons m ms => cases missed

/-- The report of every trace is consistent, whether the methods are given or asked for. -/
theorem reports_consistent (t : Tracer) (c : Corpus) (path : String) :
    (∀ query, ((t.trace c query).report query path).Consistent t.suggestionLimit) ∧
    ∀ methods query, ((t.traceFrom c methods).report query path).Consistent t.suggestionLimit := by
  refine ⟨?_, fun methods _ => t.traceFrom_consistent c methods⟩
  intro query
  unfold trace Corpus.resolve
  split
  next methods _ => exact t.traceFrom_consistent c methods
  next names hr =>
    have few : names.length ≤ t.suggestionLimit := by
      split at hr
      next => cases hr; exact length_similarAmong_le (Nat.zero_le _)
      next => cases hr
    exact Trace.report_consistent_of_valid (t := t) CallGraph.empty_valid (by simp [Trace.targets])
      rfl (fun hit => by cases hit) fun _ => ⟨rfl, rfl, few⟩

end Tracer

end AppSurface
