import AppSurface.AdjacencyGraph
import Mathlib.Data.List.Basic
import Mathlib.Data.List.Nodup

namespace AppSurface

theorem Vertex.meet_weight {α : Type} (v : Vertex α) (d : Direction) (i : Nat) :
    (v.meet d i).weight = v.weight := by
  cases d <;> rfl

theorem Vertex.meet_neighbours {α : Type} (v : Vertex α) (d d' : Direction) (i : Nat) :
    (v.meet d i).neighbours d' = if d' = d then i :: v.neighbours d' else v.neighbours d' := by
  cases d <;> cases d' <;> rfl

namespace AdjacencyGraph

variable {α : Type} {g h : AdjacencyGraph α} {vertices : Array (Vertex α)} {d : Direction}
  {i j p : Nat} {e : Nat × Nat} {a b : α}

/-- The neighbours of every node are the far ends of its edges, the newest first, and edges join
nodes. -/
structure Linked (g : AdjacencyGraph α) : Prop where
  neighbours : ∀ d i, g.neighbours d i = ((g.edges.filter fun e => d.near e == i).map d.far).reverse
  joined : ∀ e ∈ g.edges, e.1 < g.nodeCount ∧ e.2 < g.nodeCount

theorem Linked.mem_neighbours (linked : g.Linked) :
    j ∈ g.neighbours d i ↔ ∃ e ∈ g.edges, d.near e = i ∧ d.far e = j := by
  simp only [linked.neighbours, List.mem_reverse, List.mem_map, List.mem_filter, beq_iff_eq,
    and_assoc]

theorem Linked.mem_outgoing (linked : g.Linked) :
    j ∈ g.neighbours .outgoing i ↔ (i, j) ∈ g.edges := by
  rw [linked.mem_neighbours]
  constructor
  · rintro ⟨e, he, rfl, rfl⟩
    exact he
  · intro he
    exact ⟨_, he, rfl, rfl⟩

theorem Linked.mem_incoming (linked : g.Linked) :
    i ∈ g.neighbours .incoming j ↔ (i, j) ∈ g.edges := by
  rw [linked.mem_neighbours]
  constructor
  · rintro ⟨e, he, rfl, rfl⟩
    exact he
  · intro he
    exact ⟨_, he, rfl, rfl⟩

theorem Linked.hasEdge_iff (linked : g.Linked) : g.hasEdge e = true ↔ e ∈ g.edges := by
  rw [hasEdge, List.contains_iff_mem, linked.mem_outgoing]

theorem Direction.eq_of_ends {e e' : Nat × Nat} (near : d.near e = d.near e')
    (far : d.far e = d.far e') : e = e' := by
  cases d
  · exact Prod.ext near far
  · exact Prod.ext far near

theorem Linked.nodup_neighbours (linked : g.Linked) (nodup : g.edges.Nodup) (d : Direction)
    (i : Nat) : (g.neighbours d i).Nodup := by
  rw [linked.neighbours, List.nodup_reverse]
  apply (nodup.filter _).map_on
  intro e he e' he' far
  have near : d.near e = i := beq_iff_eq.mp (List.mem_filter.mp he).2
  have near' : d.near e' = i := beq_iff_eq.mp (List.mem_filter.mp he').2
  exact Direction.eq_of_ends (near.trans near'.symm) far

theorem weight?_isSome : (g.weight? i).isSome ↔ i < g.nodeCount := by
  simp [weight?, nodeCount]

theorem getElem?_weights (g : AdjacencyGraph α) (i : Nat) : g.weights[i]? = g.weight? i := by
  simp [weights, weight?]

theorem length_weights (g : AdjacencyGraph α) : g.weights.length = g.nodeCount := by
  simp [weights, nodeCount]

theorem empty_linked : (empty : AdjacencyGraph α).Linked where
  neighbours d i := by simp [AdjacencyGraph.neighbours, empty]
  joined e he := absurd he List.not_mem_nil

theorem addNode_weight? (g : AdjacencyGraph α) (a : α) (p : Nat) :
    (g.addNode a).2.weight? p = if p = g.nodeCount then some a else g.weight? p := by
  simp only [addNode, weight?, nodeCount, Array.getElem?_push]
  by_cases hp : p = g.vertices.size <;> simp [hp]

theorem addNode_neighbours (g : AdjacencyGraph α) (a : α) (d : Direction) (p : Nat) :
    (g.addNode a).2.neighbours d p = g.neighbours d p := by
  simp only [addNode, AdjacencyGraph.neighbours, Array.getElem?_push]
  by_cases hp : p = g.vertices.size
  · cases d <;> simp [hp, Vertex.neighbours]
  · simp [hp]

theorem addNode_linked (linked : g.Linked) (a : α) : (g.addNode a).2.Linked where
  neighbours d i := by rw [addNode_neighbours, linked.neighbours]; rfl
  joined e he := by
    have := linked.joined e he
    simp only [addNode, nodeCount, Array.size_push] at this ⊢
    omega

theorem attach_nodeCount (g : AdjacencyGraph α) (d : Direction) (e : Nat × Nat) :
    (g.attach d e).nodeCount = g.nodeCount := by
  simp [attach, nodeCount]

theorem attach_weight? (g : AdjacencyGraph α) (d : Direction) (e : Nat × Nat) (p : Nat) :
    (g.attach d e).weight? p = g.weight? p := by
  simp only [attach, weight?, Array.getElem?_modify]
  split
  · cases g.vertices[p]? with
    | none => rfl
    | some v => exact congrArg some (v.meet_weight d (d.far e))
  · rfl

theorem attach_neighbours (hn : d.near e < g.nodeCount) (d' : Direction) (p : Nat) :
    (g.attach d e).neighbours d' p =
      if d' = d ∧ d.near e = p then d.far e :: g.neighbours d' p else g.neighbours d' p := by
  simp only [attach, AdjacencyGraph.neighbours, Array.getElem?_modify]
  by_cases hp : d.near e = p
  · subst hp
    simp only [Array.getElem?_eq_getElem hn, if_true, Option.map_some, Vertex.meet_neighbours,
      and_true]
  · simp [hp]

/-- An edge between two nodes is added: it stands last, each end is the newest neighbour of the
other, and all else stays as it is. -/
structure Added (g : AdjacencyGraph α) (e : Nat × Nat) (h : AdjacencyGraph α) : Prop where
  source : e.1 < g.nodeCount
  target : e.2 < g.nodeCount
  edges : h.edges = g.edges ++ [e]
  count : h.nodeCount = g.nodeCount
  weight : ∀ p, h.weight? p = g.weight? p
  neighbours : ∀ d p, h.neighbours d p =
    if d.near e = p then d.far e :: g.neighbours d p else g.neighbours d p

theorem added_of_addEdge? (ha : g.addEdge? e = some h) : g.Added e h := by
  unfold addEdge? at ha
  split at ha
  next inside =>
    simp only [Bool.and_eq_true, decide_eq_true_eq] at inside
    have out : Direction.outgoing.near e < g.nodeCount := inside.1
    have into : Direction.incoming.near e < (g.attach .outgoing e).nodeCount := by
      rw [attach_nodeCount]
      exact inside.2
    cases ha
    refine ⟨inside.1, inside.2, rfl, ?_, ?_, ?_⟩
    · exact (attach_nodeCount _ _ _).trans (attach_nodeCount _ _ _)
    · intro p
      exact (attach_weight? _ _ _ p).trans (attach_weight? _ _ _ p)
    · intro d p
      refine (attach_neighbours into d p).trans ?_
      rw [attach_neighbours out]
      cases d <;> simp
  next => cases ha

theorem exists_addEdge? (hi : i < g.nodeCount) (hj : j < g.nodeCount) :
    ∃ h, g.addEdge? (i, j) = some h := by
  simp [addEdge?, hi, hj]

theorem Added.linked (added : g.Added e h) (linked : g.Linked) : h.Linked where
  neighbours d p := by
    rw [added.neighbours, added.edges, linked.neighbours]
    by_cases hp : d.near e = p <;> simp [hp]
  joined e' he := by
    rw [added.edges, List.mem_append, List.mem_singleton] at he
    rw [added.count]
    rcases he with he | rfl
    · exact linked.joined e' he
    · exact ⟨added.source, added.target⟩

end AdjacencyGraph

end AppSurface
