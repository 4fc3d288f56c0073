import AppSurface.Proofs.Walk

namespace AppSurface.Walk

variable {callersOf : String → List MethodRef} {roots : List MethodRef} {w w' : Walk}
  {hops i j : Nat} {m n : MethodRef} {js : List Nat}

/-- The walk after a node is marked as one whose callers were looked for. -/
def visit (w : Walk) (i : Nat) : Walk := { w with visited := i :: w.visited }

/-- The walk after `n` is recorded as a caller of the node `i`. -/
def record (w : Walk) (i : Nat) (n : MethodRef) : Walk :=
  { w with graph := (w.graph.ensure n).2.link i (w.graph.ensure n).1 }

/-- What a trace does with one caller `n` of the node `i`. -/
def meet (callersOf : String → List MethodRef) (hops i : Nat) (w : Walk) (n : MethodRef) : Walk :=
  if (w.graph.ensure n).1 = i then { w with graph := (w.graph.ensure n).2 }
  else trace callersOf hops (w.graph.ensure n).1 (w.record i n)

theorem trace_of_fresh (hi : i ∉ w.visited) (hm : w.graph.node? i = some m) :
    trace callersOf (hops + 1) i w =
      (callersOf m.methodName).foldl (meet callersOf hops i) (w.visit i) := by
  simp only [trace, List.contains_eq_mem, hi, decide_false, Bool.false_eq_true, if_false, hm]
  refine congrArg (fun f => List.foldl f _ _) ?_
  funext w n
  simp only [meet, record, beq_iff_eq]

theorem visit_sound (sound : w.Sound callersOf roots) (hi : i < w.graph.nodeCount) :
    (w.visit i).Sound callersOf roots where
  valid := sound.valid
  origin := sound.origin
  seen hp := by
    rcases List.mem_cons.mp hp with rfl | hp
    · exact hi
    · exact sound.seen hp
  justified hr := by
    obtain ⟨hp, found⟩ := sound.justified hr
    exact ⟨List.mem_cons_of_mem _ hp, found⟩

theorem visit_grows (w : Walk) (i : Nat) : w.Grows (w.visit i) :=
  ⟨.refl _, fun hp => List.mem_cons_of_mem _ hp⟩

theorem ensure_linkable (sound : w.Sound callersOf roots) (hi : i ∈ w.visited)
    (hj : i ≠ (w.graph.ensure n).1) :
    (w.graph.ensure n).2.Linkable i (w.graph.ensure n).1 := by
  have valid := CallGraph.ensure_valid sound.valid n
  have count := (CallGraph.ensure_grows w.graph n).nodeCount_le
  have hlt := sound.seen hi
  obtain ⟨_, hq, _⟩ :=
    (CallGraph.index?_eq_some_iff valid).mp (CallGraph.ensure_index w.graph n)
  exact ⟨valid, hj, by omega, CallGraph.node_lt hq⟩

section Record

variable (linkable : (w.graph.ensure n).2.Linkable i (w.graph.ensure n).1)
include linkable

theorem record_grows : w.Grows (w.record i n) :=
  ⟨(CallGraph.ensure_grows _ n).trans linkable.grows, id⟩

theorem record_index : (w.record i n).graph.index? n.signature = some (w.graph.ensure n).1 :=
  (linkable.index? _).trans (CallGraph.ensure_index w.graph n)

theorem record_recorded : (w.record i n).graph.Recorded i (w.graph.ensure n).1 :=
  linkable.recorded.mpr (.inr ⟨rfl, rfl⟩)

/-- The only node that recording a caller may add is the caller's. -/
theorem record_node {p : Nat} (hp : p < (w.record i n).graph.nodeCount) :
    p < w.graph.nodeCount ∨ p = (w.graph.ensure n).1 := by
  rw [record, linkable.nodeCount] at hp
  obtain ⟨q, hq⟩ := CallGraph.exists_node hp
  exact (CallGraph.ensure_node hq).imp CallGraph.node_lt And.left

theorem record_sound (sound : w.Sound callersOf roots) (hi : i ∈ w.visited)
    (hm : w.graph.node? i = some m) (hn : n ∈ callersOf m.methodName) :
    (w.record i n).Sound callersOf roots := by
  have grows := record_grows linkable
  have valid : (w.record i n).graph.Valid := linkable.valid_link
  refine ⟨valid, ?_, fun hp => Nat.lt_of_lt_of_le (sound.seen hp) grows.graph.nodeCount_le, ?_⟩
  · intro p k hk
    rw [record, linkable.node?] at hk
    rcases CallGraph.ensure_node hk with hk | ⟨_, rfl⟩
    · exact sound.origin hk
    · exact .inr ⟨m.methodName, hn⟩
  · intro p r hr
    rcases linkable.recorded.mp hr with hr | ⟨rfl, rfl⟩
    · rw [CallGraph.Recorded, CallGraph.ensure_edges] at hr
      obtain ⟨hp, k, c, hk, hc, hx⟩ := sound.justified hr
      exact ⟨hp, k, c, grows.graph.node hk, hc, grows.graph.index sound.valid valid hx⟩
    · exact ⟨hi, m, n, grows.graph.node hm, hn, record_index linkable⟩

end Record

/-- Recording a caller before exploring from its node adds no node but that one. -/
theorem Explores.of_record
    (linkable : (w.graph.ensure n).2.Linkable i (w.graph.ensure n).1)
    (h : Explores callersOf roots hops [(w.graph.ensure n).1] (w.record i n) w') :
    Explores callersOf roots hops [(w.graph.ensure n).1] w w' where
  sound := h.sound
  grows := (record_grows linkable).trans h.grows
  visits := h.visits
  complete := h.complete
  reached p hp := by
    rcases h.reached p hp with hp | far
    · refine (record_node linkable hp).imp_right ?_
      rintro rfl
      exact ⟨_, List.mem_singleton_self _, [], .nil _, Nat.zero_le _⟩
    · exact .inr far
  stopped := h.stopped

/-- From `w` to `w'`, the callers `ns` of the node `i` were gone through: each of them is `i` itself
or one of the recorded callers `js` from which the search went on. -/
def Scans (callersOf : String → List MethodRef) (roots : List MethodRef) (hops i : Nat)
    (ns : List MethodRef) (w w' : Walk) : Prop :=
  ∃ js, Explores callersOf roots hops js w w' ∧ (∀ j ∈ js, w'.graph.Recorded i j) ∧
    ∀ n ∈ ns, ∃ j, w'.graph.index? n.signature = some j ∧ (j = i ∨ j ∈ js)

theorem Scans.append {w₁ w₂ : Walk} {ns ks : List MethodRef}
    (first : Scans callersOf roots hops i ns w w₁)
    (second : Scans callersOf roots hops i ks w₁ w₂) (valid : w₁.graph.Valid) :
    Scans callersOf roots hops i (ns ++ ks) w w₂ := by
  obtain ⟨js, explores, linked, found⟩ := first
  obtain ⟨js', explores', linked', found'⟩ := second
  refine ⟨js ++ js', explores.append explores', ?_, ?_⟩
  · intro j hj
    rcases List.mem_append.mp hj with hj | hj
    · exact explores'.grows.graph.edge (linked j hj)
    · exact linked' j hj
  · intro n hn
    rcases List.mem_append.mp hn with hn | hn
    · obtain ⟨j, hx, hj⟩ := found n hn
      exact ⟨j, explores'.grows.graph.index valid explores'.sound.valid hx,
        hj.imp_right (List.mem_append_left _)⟩
    · obtain ⟨j, hx, hj⟩ := found' n hn
      exact ⟨j, hx, hj.imp_right (List.mem_append_right _)⟩

section Step

variable (trace_explores : ∀ {j w}, w.Sound callersOf roots → j < w.graph.nodeCount →
  Explores callersOf roots hops [j] w (trace callersOf hops j w))
include trace_explores

theorem meet_scans (sound : w.Sound callersOf roots) (hi : i ∈ w.visited)
    (hm : w.graph.node? i = some m) (hn : n ∈ callersOf m.methodName) :
    Scans callersOf roots hops i [n] w (meet callersOf hops i w n) := by
  have index := CallGraph.ensure_index w.graph n
  by_cases hj : (w.graph.ensure n).1 = i
  · have same : (w.graph.ensure n).2 = w.graph := by
      cases hx : w.graph.index? n.signature with
      | some k => rw [CallGraph.ensure_of_index hx]
      | none =>
        have hlt := sound.seen hi
        have hsize : w.graph.nodeCount = i := by simpa [CallGraph.ensure_of_new hx] using hj
        omega
    rw [meet, if_pos hj]
    rw [same] at index ⊢
    refine ⟨[], .idle sound (by simp), by simp, ?_⟩
    intro k hk
    rw [List.mem_singleton.mp hk]
    exact ⟨i, hj ▸ index, .inl rfl⟩
  · have linkable := ensure_linkable sound hi (Ne.symm hj)
    have sound' := record_sound linkable sound hi hm hn
    have hlt := (sound'.valid.joined (record_recorded linkable)).2
    have explores := trace_explores sound' hlt
    rw [meet, if_neg hj]
    refine ⟨[(w.graph.ensure n).1], explores.of_record linkable, ?_, ?_⟩
    · intro j hj
      rw [List.mem_singleton.mp hj]
      exact explores.grows.graph.edge (record_recorded linkable)
    · intro k hk
      rw [List.mem_singleton.mp hk]
      exact ⟨_, explores.grows.graph.index sound'.valid explores.sound.valid (record_index linkable),
        .inr (List.mem_singleton_self _)⟩

theorem scan_scans {ns : List MethodRef} (hns : ∀ n ∈ ns, n ∈ callersOf m.methodName)
    (sound : w.Sound callersOf roots) (hi : i ∈ w.visited) (hm : w.graph.node? i = some m) :
    Scans callersOf roots hops i ns w (ns.foldl (meet callersOf hops i) w) := by
  induction ns generalizing w with
  | nil => exact ⟨[], .idle sound (by simp), by simp, by simp⟩
  | cons n ns ih =>
    have first := meet_scans trace_explores sound hi hm (hns n List.mem_cons_self)
    have ⟨_, explores, _⟩ := first
    exact first.append (ih (fun k hk => hns k (List.mem_cons_of_mem _ hk)) explores.sound
      (explores.grows.visited hi) (explores.grows.graph.node hm)) explores.sound.valid

end Step

section Found

variable (hm : w.graph.node? i = some m) (found : ∀ n ∈ callersOf m.methodName,
  ∃ j, w.graph.index? n.signature = some j ∧ (j = i ∨ j ∈ js))
include hm found

theorem complete_of_found (linked : ∀ j ∈ js, w.graph.Recorded i j) :
    Complete callersOf w.graph i := by
  intro k hk n hn
  have he : m = k := Option.some.inj (hm.symm.trans hk)
  obtain ⟨j, hx, hj⟩ := found n (he ▸ hn)
  exact ⟨j, hx, hj.imp_right (linked j)⟩

/-- The recorded callers of a node are among those that were found. -/
theorem mem_of_recorded (sound : w.Sound callersOf roots) (hr : w.graph.Recorded i j) :
    j ∈ js := by
  obtain ⟨_, k, n, hk, hn, hx⟩ := sound.justified hr
  have hkm : k = m := Option.some.inj (hk.symm.trans hm)
  obtain ⟨p, hp, hpj⟩ := found n (hkm ▸ hn)
  have he : p = j := Option.some.inj (hp.symm.trans hx)
  rcases hpj with rfl | hpj
  · exact absurd he (sound.valid.loopless hr)
  · exact he ▸ hpj

end Found

/-- Going through all callers of a fresh node, with `hops` hops left for each of them, explores
from the node itself with one hop more. -/
theorem Scans.explores (hi : i ∉ w.visited) (hm : w.graph.node? i = some m)
    (scans : Scans callersOf roots hops i (callersOf m.methodName) (w.visit i) w') :
    Explores callersOf roots (hops + 1) [i] w w' := by
  obtain ⟨js, explores, linked, found⟩ := scans
  have hm' := explores.grows.graph.node hm
  have own : i ∈ w'.visited := explores.grows.visited List.mem_cons_self
  refine ⟨explores.sound, (visit_grows w i).trans explores.grows, ?_, ?_, ?_, ?_⟩
  · intro _ p hp
    rwa [List.mem_singleton.mp hp]
  · intro p hp
    rcases explores.complete p hp with hp | hc
    · rcases List.mem_cons.mp hp with rfl | hp
      · exact .inr (complete_of_found hm' found linked)
      · exact .inl hp
    · exact .inr hc
  · intro p hp
    rcases explores.reached p hp with hp | ⟨j, hj, l, hl, hb⟩
    · exact .inl hp
    · exact .inr ⟨i, List.mem_singleton_self i, j :: l, .cons (linked j hj) hl,
        Nat.succ_le_succ hb⟩
  · intro p q hp hr
    by_cases he : p = i
    · subst he
      have hq : q ∈ js := mem_of_recorded hm' found explores.sound hr
      rcases Nat.eq_zero_or_pos hops with rfl | hpos
      · -- no hop is left for the callers of `p`, the start itself
        refine .inr ⟨p, List.mem_singleton_self p, [], .nil p, rfl, by simp, ?_⟩
        intro r hrp
        rw [List.mem_singleton.mp hrp]
        exact ⟨own, hi⟩
      · exact .inl (explores.visits hpos q hq)
    · have hv : p ∉ (w.visit i).visited := by
        simpa [visit, he] using hp
      rcases explores.stopped p q hv hr with hq | ⟨j, hj, l, hl, hb, hn, hf⟩
      · exact .inl hq
      · refine .inr ⟨i, List.mem_singleton_self i, j :: l, .cons (linked j hj) hl, ?_, ?_, ?_⟩
        · simp only [List.length_cons]
          omega
        · refine List.nodup_cons.mpr ⟨?_, hn⟩
          intro hmem
          exact (hf i hmem).2 List.mem_cons_self
        · intro r hmem
          rcases List.mem_cons.mp hmem with rfl | hmem
          · exact ⟨own, hi⟩
          · exact ⟨(hf r hmem).1, fun h => (hf r hmem).2 (List.mem_cons_of_mem _ h)⟩

/-- A trace explores from its node. -/
theorem trace_explores (sound : w.Sound callersOf roots) (hi : i < w.graph.nodeCount) :
    Explores callersOf roots hops [i] w (trace callersOf hops i w) := by
  induction hops generalizing w i with
  | zero => exact .idle sound (fun h => absurd h (Nat.lt_irrefl 0))
  | succ hops ih =>
    by_cases hv : i ∈ w.visited
    · have stays : trace callersOf (hops + 1) i w = w := by simp [trace, hv]
      rw [stays]
      exact .idle sound (by simpa using hv)
    · obtain ⟨m, hm⟩ := CallGraph.exists_node hi
      rw [trace_of_fresh hv hm]
      exact Scans.explores hv hm
        (scan_scans ih (fun _ hn => hn) (visit_sound sound hi) List.mem_cons_self hm)

/-- Traces one after the other explore from all their nodes. -/
theorem foldl_explores (sound : w.Sound callersOf roots) (hjs : ∀ j ∈ js, j < w.graph.nodeCount) :
    Explores callersOf roots hops js w
      (js.foldl (fun w j => trace callersOf hops j w) w) := by
  induction js generalizing w with
  | nil => exact .idle sound (by simp)
  | cons j js ih =>
    have first : Explores callersOf roots hops [j] w (trace callersOf hops j w) :=
      trace_explores sound (hjs j List.mem_cons_self)
    refine first.append (ih first.sound ?_)
    intro k hk
    exact Nat.lt_of_lt_of_le (hjs k (List.mem_cons_of_mem _ hk)) first.grows.graph.nodeCount_le

end AppSurface.Walk
