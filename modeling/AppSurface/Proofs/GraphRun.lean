import AppSurface.Proofs.CallGraph
import AppSurface.Proofs.Signature
import Mathlib.Data.List.Induction

namespace AppSurface.CallGraph

/-- What can be asked of a graph that changes it. -/
inductive Change where
  | ensure (m : MethodRef)
  | addCaller (callee caller : Nat)

/-- What is answered to a change: the index of a node, whether an edge is a new one, or nothing. -/
inductive Reply where
  | node (i : Nat)
  | edge (new : Bool)
  | refused
deriving DecidableEq

/-- Makes a change. One that is refused leaves the graph as it is. -/
def serve (g : CallGraph) : Change → Reply × CallGraph
  | .ensure m => (.node (g.ensure m).1, (g.ensure m).2)
  | .addCaller callee caller =>
    match g.addCaller? callee caller with
    | some (new, h) => (.edge new, h)
    | none => (.refused, g)

def serveAll (g : CallGraph) (changes : List Change) : CallGraph :=
  changes.foldl (fun g c => (g.serve c).2) g

/-- The graph after some changes of the empty one. -/
def run (changes : List Change) : CallGraph := empty.serveAll changes

variable {g h : CallGraph} {i j : Nat} {m n : MethodRef} {s : String} {c : Change}
  {changes before after more : List Change}

/-- Asked to record a caller, a graph says yes and is extended, or it stays as it is. -/
theorem serve_addCaller (valid : g.Valid) (i j : Nat) :
    (g.serve (.addCaller i j)).1 ≠ .edge true ∧ (g.serve (.addCaller i j)).2 = g ∨
    (g.serve (.addCaller i j)).1 = .edge true ∧ g.Extended i j (g.serve (.addCaller i j)).2 := by
  rcases addCaller?_cases valid i j with ⟨ha, _⟩ | ⟨ha, _⟩ | ⟨h, ha, extended⟩
  · exact .inl (by simp [serve, ha])
  · exact .inl (by simp [serve, ha])
  · refine .inr ⟨by simp [serve, ha], ?_⟩
    simpa only [serve, ha] using extended

theorem edge_true_iff (valid : g.Valid) (i j : Nat) :
    (g.serve (.addCaller i j)).1 = .edge true ↔
      (g.serve (.addCaller i j)).2.edgeCount = g.edgeCount + 1 := by
  rcases serve_addCaller valid i j with ⟨no, same⟩ | ⟨yes, extended⟩
  · rw [same]
    exact ⟨fun yes => absurd yes no, fun grown => by omega⟩
  · exact ⟨fun _ => extended.edgeCount, fun _ => yes⟩

theorem serve_valid (valid : g.Valid) (c : Change) : (g.serve c).2.Valid := by
  cases c with
  | ensure m => exact ensure_valid valid m
  | addCaller i j =>
    rcases serve_addCaller valid i j with ⟨_, same⟩ | ⟨_, extended⟩
    · rwa [same]
    · exact extended.valid valid

theorem serve_grows (valid : g.Valid) (c : Change) : g.Grows (g.serve c).2 := by
  cases c with
  | ensure m => exact ensure_grows g m
  | addCaller i j =>
    rcases serve_addCaller valid i j with ⟨_, same⟩ | ⟨_, extended⟩
    · rw [same]
      exact .refl g
    · exact extended.grows

theorem serveAll_valid (valid : g.Valid) : (g.serveAll changes).Valid := by
  induction changes generalizing g with
  | nil => exact valid
  | cons c changes ih => exact ih (serve_valid valid c)

theorem serveAll_grows (valid : g.Valid) (changes : List Change) :
    g.Grows (g.serveAll changes) := by
  induction changes generalizing g with
  | nil => exact .refl g
  | cons c changes ih => exact (serve_grows valid c).trans (ih (serve_valid valid c))

theorem run_valid (changes : List Change) : (run changes).Valid := serveAll_valid empty_valid

theorem run_append (before after : List Change) :
    run (before ++ after) = (run before).serveAll after := List.foldl_append

theorem run_concat (before : List Change) (c : Change) :
    run (before ++ [c]) = ((run before).serve c).2 := run_append before [c]

theorem run_grows (before after : List Change) : (run before).Grows (run (before ++ after)) := by
  rw [run_append]
  exact serveAll_grows (run_valid before) _

/-- The index that a request for a node is answered with is that of the method's signature from
then on. -/
theorem run_index (before : List Change) (m : MethodRef) (after : List Change) :
    (run (before ++ .ensure m :: after)).index? m.signature = some ((run before).ensure m).1 := by
  have made : (run (before ++ [.ensure m])).index? m.signature = some ((run before).ensure m).1 := by
    rw [run_concat]
    exact ensure_index _ m
  rw [List.append_cons]
  exact (run_grows _ after).index (run_valid _) (run_valid _) made

/-- The node `i` was made when `m` was asked for, the first method of its signature. -/
def Made (changes : List Change) (i : Nat) (m : MethodRef) : Prop :=
  ∃ before after, changes = before ++ .ensure m :: after ∧ (run before).nodeCount = i ∧
    ∀ n, .ensure n ∈ before → n.signature ≠ m.signature

theorem Made.concat (made : Made changes i m) (c : Change) : Made (changes ++ [c]) i m := by
  obtain ⟨before, after, he, rest⟩ := made
  exact ⟨before, after ++ [c], by simp [he], rest⟩

theorem made_of_node (hm : (run changes).node? i = some m) : Made changes i m := by
  induction changes using List.reverseRecOn with
  | nil => cases hm
  | append_singleton changes c ih =>
    rw [run_concat] at hm
    cases c with
    | addCaller p q =>
      rcases serve_addCaller (run_valid changes) p q with ⟨_, same⟩ | ⟨_, extended⟩
      · rw [same] at hm
        exact (ih hm).concat _
      · rw [extended.node?] at hm
        exact (ih hm).concat _
    | ensure n =>
      cases hx : (run changes).index? n.signature with
      | some j =>
        simp only [serve, ensure_of_index hx] at hm
        exact (ih hm).concat _
      | none =>
        rcases ensure_node hm with hm | ⟨hi, rfl⟩
        · exact (ih hm).concat _
        · rw [ensure_of_new hx] at hi
          refine ⟨changes, [], rfl, hi.symm, ?_⟩
          intro k hk same
          obtain ⟨before, after, he⟩ := List.append_of_mem hk
          have found := run_index before k after
          rw [← he, same, hx] at found
          cases found

/-- A node is that of the method it was made for. -/
theorem node?_eq_some_iff : (run changes).node? i = some m ↔ Made changes i m := by
  refine ⟨made_of_node, ?_⟩
  rintro ⟨before, after, rfl, rfl, first⟩
  have hx : (run before).index? m.signature = none := by
    apply (index?_eq_none_iff (run_valid before)).mpr
    intro j n hn
    obtain ⟨_, _, rfl, _⟩ := made_of_node hn
    exact first n (by simp)
  have here : (run (before ++ [.ensure m])).node? (run before).nodeCount = some m := by
    rw [run_concat, serve]
    apply node?_eq_some_iff_stored.mpr
    exact ⟨.ofMethod m, by rw [ensure_stored?_of_new hx, if_pos rfl], rfl⟩
  rw [List.append_cons]
  exact (run_grows _ after).node here

/-- What is kept more than once in a graph agrees: the nodes with the index of their signatures, the
stored signatures with the methods, the neighbours on either side with the edges, and the number of
edges with the numbers of callers. -/
structure InStep (g : CallGraph) : Prop where
  index_iff : ∀ s i, g.index? s = some i ↔ ∃ n, g.stored? i = some n ∧ n.signature = s
  search : ∀ s, g.index? s = g.indices.find? fun i => g.signatureAt i == s
  signed : ∀ i n, g.stored? i = some n →
    n.signature = n.method.className ++ "." ++ n.method.methodName
  distinct : ∀ i j n k, g.stored? i = some n → g.stored? j = some k →
    n.signature = k.signature → i = j
  loopless : ∀ i, (i, i) ∉ g.edges
  nodup : g.edges.Nodup
  ascending : ∀ i, (g.callers i).Pairwise (· < ·) ∧ (g.callees i).Pairwise (· < ·)
  recorded : ∀ i j, j ∈ g.callers i ↔ (i, j) ∈ g.edges
  converse : ∀ i j, j ∈ g.callers i ↔ i ∈ g.callees j
  counted : g.edgeCount = (g.indices.map fun i => (g.callers i).length).sum

theorem Valid.inStep (valid : g.Valid) : g.InStep where
  index_iff _ _ := valid.indexed
  search := index?_eq_find? valid
  signed _ _ := valid.signed
  distinct i j n k hn hk same := by
    have first := valid.indexed.mpr ⟨n, hn, same⟩
    exact Option.some.inj (first.symm.trans (valid.indexed.mpr ⟨k, hk, rfl⟩))
  loopless _ he := valid.loopless he rfl
  nodup := valid.nodup
  ascending i := ⟨ascending_callers valid i, ascending_callees valid i⟩
  recorded _ _ := mem_callers valid
  converse _ _ := (mem_callers valid).trans (mem_callees valid).symm
  counted := edgeCount_eq_sum valid

/-- Methods whose names have no dot get the same node exactly if they are the same method. -/
theorem reply_eq_iff (hm : m.Undotted) (hn : n.Undotted) (before between : List Change) :
    ((run before).serve (.ensure m)).1 =
        ((run (before ++ .ensure m :: between)).serve (.ensure n)).1 ↔ m = n := by
  have first := run_index before m (between ++ [.ensure n])
  have second := run_index (before ++ .ensure m :: between) n []
  simp only [List.append_assoc, List.cons_append] at second
  simp only [serve, Reply.node.injEq]
  constructor
  · intro same
    rw [same, ← second] at first
    obtain ⟨k, hk, hkm⟩ := (index?_eq_some_iff (run_valid _)).mp second
    obtain ⟨l, hl, hln⟩ := (index?_eq_some_iff (run_valid _)).mp (first.trans second)
    rw [hk] at hl
    cases hl
    exact MethodRef.eq_of_signature hm hn (hln.symm.trans hkm)
  · rintro rfl
    exact Option.some.inj (first.symm.trans second)

/-- After every run of changes nodes, index, neighbours and edges are in step. A node is that of the
first method asked for under its signature, made behind all earlier nodes, and later changes leave
its place and what it stores as they are. A request for a caller says that the edge is a new one
exactly if it adds an edge, and two requests for nodes get the same one exactly if they name the
same method. -/
theorem run_inStep (changes : List Change) :
    let g := run changes
    g.InStep ∧
    (∀ i m, g.node? i = some m ↔ Made changes i m) ∧
    (∀ more i n, g.stored? i = some n → (run (changes ++ more)).stored? i = some n) ∧
    (∀ i j, (g.serve (.addCaller i j)).1 = .edge true ↔
      (g.serve (.addCaller i j)).2.edgeCount = g.edgeCount + 1) ∧
    ∀ before m between n after,
      changes = before ++ .ensure m :: (between ++ .ensure n :: after) →
      m.Undotted → n.Undotted →
      (((run before).serve (.ensure m)).1 =
          ((run (before ++ .ensure m :: between)).serve (.ensure n)).1 ↔
        m.className = n.className ∧ m.methodName = n.methodName) := by
  intro g
  refine ⟨(run_valid changes).inStep, fun _ _ => node?_eq_some_iff, ?_,
    edge_true_iff (run_valid changes), ?_⟩
  · intro more i n hn
    exact (run_grows changes more).stored hn
  · intro before m between n _ _ hm hn
    rw [reply_eq_iff hm hn]
    cases m
    cases n
    exact Iff.of_eq (MethodRef.mk.injEq _ _ _ _)

/-- `ping` and `pong` call each other, and `run` calls `ping`, which is recorded before `pong` is;
one request repeats an edge, one names no node, and the last repeats the first. -/
def pingPong : List Change :=
  [.ensure ⟨"A", "ping"⟩, .ensure ⟨"B", "pong"⟩, .ensure ⟨"C", "run"⟩, .addCaller 0 2,
    .addCaller 0 1, .addCaller 1 0, .addCaller 0 1, .addCaller 0 7, .ensure ⟨"A", "ping"⟩]

theorem pingPong_inStep :
    let g := run pingPong
    g.InStep ∧ g.edgeCount = 3 ∧ g.callers 0 = [1, 2] ∧ g.callees 0 = [1] ∧
    g.index? "B.pong" = some 1 ∧ g.stored? 1 = some ⟨⟨"B", "pong"⟩, "B.pong"⟩ ∧
    (run (pingPong ++ [.ensure ⟨"D", "stop"⟩])).stored? 1 =
      some ⟨⟨"B", "pong"⟩, "B.pong"⟩ ∧
    (MethodRef.mk "A" "ping").Undotted ∧ (MethodRef.mk "B" "pong").Undotted ∧
    (((run []).serve (.ensure ⟨"A", "ping"⟩)).1 =
        ((run [.ensure ⟨"A", "ping"⟩]).serve (.ensure ⟨"B", "pong"⟩)).1 ↔
      "A" = "B" ∧ "ping" = "pong") := by
  intro g
  obtain ⟨inStep, _, stays, _, same⟩ := run_inStep pingPong
  have facts : g.edgeCount = 3 ∧ g.callers 0 = [1, 2] ∧ g.callees 0 = [1] ∧
      g.index? "B.pong" = some 1 ∧ g.stored? 1 = some ⟨⟨"B", "pong"⟩, "B.pong"⟩ ∧
      (MethodRef.mk "A" "ping").Undotted ∧ (MethodRef.mk "B" "pong").Undotted := by
    decide +kernel
  obtain ⟨count, callers, callees, index, here, hm, hn⟩ := facts
  exact ⟨inStep, count, callers, callees, index, here, stays _ 1 _ here, hm, hn,
    same [] ⟨"A", "ping"⟩ [] ⟨"B", "pong"⟩ _ rfl hm hn⟩

end AppSurface.CallGraph
