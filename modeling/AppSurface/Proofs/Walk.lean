import AppSurface.Proofs.CallGraph
import AppSurface.Proofs.CallerSearch
import AppSurface.Proofs.Chain

namespace AppSurface.Walk

variable {callersOf : String → List MethodRef} {roots : List MethodRef} {w w₁ w₂ : Walk}
  {hops i j : Nat} {m n : MethodRef} {starts more : List Nat}

/-- Each caller found for the node `i` has a node, which is `i` itself or recorded as its caller. -/
def Complete (callersOf : String → List MethodRef) (g : CallGraph) (i : Nat) : Prop :=
  ∀ m, g.node? i = some m → ∀ n ∈ callersOf m.methodName,
    ∃ j, g.index? n.signature = some j ∧ (j = i ∨ g.Recorded i j)

/-- Nodes are roots or callers that were found. Edges start at nodes whose callers were looked for,
and lead to callers found there. -/
structure Sound (callersOf : String → List MethodRef) (roots : List MethodRef) (w : Walk) :
    Prop where
  valid : w.graph.Valid
  origin : ∀ {i m}, w.graph.node? i = some m → m ∈ roots ∨ ∃ name, m ∈ callersOf name
  seen : ∀ {i}, i ∈ w.visited → i < w.graph.nodeCount
  justified : ∀ {i j}, w.graph.Recorded i j → i ∈ w.visited ∧ ∃ m n,
    w.graph.node? i = some m ∧ n ∈ callersOf m.methodName ∧ w.graph.index? n.signature = some j

/-- Nothing that the walk `w` knows is lost in `w'`. -/
structure Grows (w w' : Walk) : Prop where
  graph : w.graph.Grows w'.graph
  visited : ∀ {i}, i ∈ w.visited → i ∈ w'.visited

theorem Grows.refl (w : Walk) : w.Grows w := ⟨.refl _, id⟩

theorem Grows.trans (first : w.Grows w₁) (second : w₁.Grows w₂) : w.Grows w₂ :=
  ⟨first.graph.trans second.graph, fun hi => second.visited (first.visited hi)⟩

/-- From `w` to `w'`, callers were looked for from `starts` on, `hops` hops away at most. The last
field tells where the search stopped short: at a caller `j` of a node `i` that lies `hops - 1` hops
from a start, on a chain without repetition. -/
structure Explores (callersOf : String → List MethodRef) (roots : List MethodRef) (hops : Nat)
    (starts : List Nat) (w w' : Walk) : Prop where
  sound : w'.Sound callersOf roots
  grows : w.Grows w'
  visits : 0 < hops → ∀ i ∈ starts, i ∈ w'.visited
  complete : ∀ i ∈ w'.visited, i ∈ w.visited ∨ Complete callersOf w'.graph i
  reached : ∀ i < w'.graph.nodeCount, i < w.graph.nodeCount ∨
    ∃ s ∈ starts, ∃ l, Chain w'.graph.Recorded s l i ∧ l.length ≤ hops
  stopped : ∀ i j, i ∉ w.visited → w'.graph.Recorded i j → j ∈ w'.visited ∨
    ∃ s ∈ starts, ∃ l, Chain w'.graph.Recorded s l i ∧ l.length + 1 = hops ∧ (s :: l).Nodup ∧
      ∀ p ∈ s :: l, p ∈ w'.visited ∧ p ∉ w.visited

theorem Complete.mono (complete : Complete callersOf w.graph i) (sound : w.Sound callersOf roots)
    (sound' : w₁.Sound callersOf roots) (grows : w.Grows w₁) (hi : i < w.graph.nodeCount) :
    Complete callersOf w₁.graph i := by
  intro m hm n hn
  obtain ⟨m', hm'⟩ := CallGraph.exists_node hi
  have he : m' = m := Option.some.inj ((grows.graph.node hm').symm.trans hm)
  obtain ⟨j, hj, hr⟩ := complete m (he ▸ hm') n hn
  exact ⟨j, grows.graph.index sound.valid sound'.valid hj, hr.imp_right grows.graph.edge⟩

/-- A complete node gets no further callers. -/
theorem Complete.recorded (complete : Complete callersOf w.graph i)
    (sound : w.Sound callersOf roots) (sound' : w₁.Sound callersOf roots) (grows : w.Grows w₁)
    (hi : i < w.graph.nodeCount) (hr : w₁.graph.Recorded i j) : w.graph.Recorded i j := by
  obtain ⟨m, hm⟩ := CallGraph.exists_node hi
  obtain ⟨_, m', n, hm', hn, hj⟩ := sound'.justified hr
  have he : m = m' := Option.some.inj ((grows.graph.node hm).symm.trans hm')
  obtain ⟨k, hk, hik⟩ := complete m hm n (he ▸ hn)
  have hkj : k = j :=
    Option.some.inj ((grows.graph.index sound.valid sound'.valid hk).symm.trans hj)
  rcases hik with rfl | hik
  · exact absurd hkj (sound'.valid.loopless hr)
  · exact hkj ▸ hik

/-- Nothing is left to look for without a hop, or from nodes that were searched before. -/
theorem Explores.idle (sound : w.Sound callersOf roots)
    (h : 0 < hops → ∀ i ∈ starts, i ∈ w.visited) : Explores callersOf roots hops starts w w where
  sound := sound
  grows := .refl w
  visits := h
  complete _ hi := .inl hi
  reached _ hi := .inl hi
  stopped _ _ hi hr := absurd (sound.justified hr).1 hi

theorem Explores.append (first : Explores callersOf roots hops starts w w₁)
    (second : Explores callersOf roots hops more w₁ w₂) :
    Explores callersOf roots hops (starts ++ more) w w₂ where
  sound := second.sound
  grows := first.grows.trans second.grows
  visits h i hi := by
    rcases List.mem_append.mp hi with hi | hi
    · exact second.grows.visited (first.visits h i hi)
    · exact second.visits h i hi
  complete i hi := by
    rcases second.complete i hi with hi | hc
    · refine (first.complete i hi).imp_right ?_
      intro hc
      exact hc.mono first.sound second.sound second.grows (first.sound.seen hi)
    · exact .inr hc
  reached i hi := by
    rcases second.reached i hi with hi | ⟨s, hs, l, hl, hb⟩
    · refine (first.reached i hi).imp_right ?_
      rintro ⟨s, hs, l, hl, hb⟩
      exact ⟨s, List.mem_append_left _ hs, l, hl.mono fun _ _ => second.grows.graph.edge, hb⟩
    · exact .inr ⟨s, List.mem_append_right _ hs, l, hl, hb⟩
  stopped i j hi hr := by
    by_cases h₁ : i ∈ w₁.visited
    · -- `i` was finished within the first part, so the edge dates from there
      have hc := (first.complete i h₁).resolve_left hi
      have hr₁ := hc.recorded first.sound second.sound second.grows (first.sound.seen h₁) hr
      rcases first.stopped i j hi hr₁ with hj | ⟨s, hs, l, hl, hb, hn, hv⟩
      · exact .inl (second.grows.visited hj)
      · refine .inr ⟨s, List.mem_append_left _ hs, l, hl.mono fun _ _ => second.grows.graph.edge,
          hb, hn, ?_⟩
        intro p hp
        exact ⟨second.grows.visited (hv p hp).1, (hv p hp).2⟩
    · rcases second.stopped i j h₁ hr with hj | ⟨s, hs, l, hl, hb, hn, hv⟩
      · exact .inl hj
      · refine .inr ⟨s, List.mem_append_right _ hs, l, hl, hb, hn, ?_⟩
        intro p hp
        exact ⟨(hv p hp).1, fun h => (hv p hp).2 (first.grows.visited h)⟩

end AppSurface.Walk
