import AppSurface.Proofs.CallEvidence
import AppSurface.Proofs.MethodText
import AppSurface.Proofs.TracedGraph

namespace AppSurface

open Cursor (Reads)

variable {k : CallMatcher} {c : Cursor} {s t w body head : List Char}

theorem infix_iff_reads : t <:+: s ↔ ∃ w c, Reads (.start s) w c ∧ t <+: c.after := by
  constructor
  · rintro ⟨w, v, text⟩
    obtain ⟨c, hc, after⟩ := Cursor.exists_reads (c := .start s) (w := w) (s := t ++ v)
      (by rw [← List.append_assoc, text]; rfl)
    exact ⟨w, c, hc, after ▸ List.prefix_append t v⟩
  · rintro ⟨w, c, hc, v, after⟩
    have text : s = w ++ c.after := hc.after_eq
    exact ⟨w, v, by rw [text, ← after, List.append_assoc]⟩

namespace CallMatcher

/-- What passes for a call begins at the place `c`. -/
def MatchesAt (k : CallMatcher) (c : Cursor) : Prop :=
  k.method.toList ++ ['('] <+: c.after ∨ (∃ d, (qualifiedCall k.method.toList).Matches c d) ∨
    ∃ p ∈ k.evidence, ∃ d, p.Matches c d

/-- What passes for a call begins in the head of a text, at its opening brace at the latest. -/
def MatchesInHead (k : CallMatcher) (head block : List Char) : Prop :=
  ∃ w c, Reads (.start (head ++ block)) w c ∧ w.length ≤ head.length ∧ k.MatchesAt c

theorem accepts_iff_matchesAt :
    k.accepts body = true ↔ ∃ w c, Reads (.start body) w c ∧ k.MatchesAt c := by
  simp only [accepts_iff, infix_iff_reads, Pattern.matchesIn_iff, MatchesAt]
  constructor
  · rintro (⟨w, c, reads, h⟩ | ⟨w, c, reads, h⟩ | ⟨p, hp, w, c, reads, h⟩)
    · exact ⟨w, c, reads, .inl h⟩
    · exact ⟨w, c, reads, .inr (.inl h)⟩
    · exact ⟨w, c, reads, .inr (.inr ⟨p, hp, h⟩)⟩
  · rintro ⟨w, c, reads, h | h | ⟨p, hp, h⟩⟩
    · exact .inl ⟨w, c, reads, h⟩
    · exact .inr (.inl ⟨w, c, reads, h⟩)
    · exact .inr (.inr ⟨p, hp, w, c, reads, h⟩)

theorem MatchesAt.congr {c' : Cursor} (h : k.MatchesAt c) (ha : c'.after = c.after)
    (hb : c'.before = c.before) : k.MatchesAt c' := by
  rcases h with h | ⟨d, h⟩ | ⟨p, hp, d, h⟩
  · exact .inl (ha ▸ h)
  · obtain ⟨d', h, _⟩ := h.congr ha hb
    exact .inr (.inl ⟨d', h⟩)
  · obtain ⟨d', h, _⟩ := h.congr ha hb
    exact .inr (.inr ⟨p, hp, d', h⟩)

/-- A text with a head and a block passes for a call by its block alone, or by what begins in its
head. -/
theorem accepts_block_or_matchesInHead {head block : List Char}
    (h : k.accepts (head ++ block) = true) :
    k.accepts block = true ∨ k.MatchesInHead head block := by
  obtain ⟨w, c, reads, hm⟩ := accepts_iff_matchesAt.mp h
  by_cases hw : w.length ≤ head.length
  · exact .inr ⟨w, c, reads, hw, hm⟩
  · -- what stands before the place stands in the block, so the place looks alike without the head
    have text : head ++ block = w ++ c.after := reads.after_eq
    rcases List.append_eq_append_iff.mp text with ⟨v, rfl, rfl⟩ | ⟨v, rfl, _⟩
    · have hv : v ≠ [] := by
        rintro rfl
        simp at hw
      obtain ⟨c', reads', after⟩ := Cursor.exists_reads (c := .start (v ++ c.after)) rfl
      refine .inl (accepts_iff_matchesAt.mpr ⟨v, c', reads', hm.congr after ?_⟩)
      rw [reads.before_eq, reads'.before_eq, List.getLast?_append_of_ne_nil _ hv]
      rfl
    · exact absurd (by simp) hw

end CallMatcher

namespace Corpus

variable {c : Corpus} {d : CallDetector} {u : ClassUnit} {caller : String} {m n : MethodRef}
  {block : List Char}

/-- Some class lists a method with the signature of `m`, whose text is found as `head` and
`block`. -/
def Locates (c : Corpus) (m : MethodRef) (head block : List Char) : Prop :=
  ∃ u ∈ c.classes, ∃ name ∈ u.methods, (MethodRef.mk u.fullName name).signature = m.signature ∧
    Locator.Located u.source.toList name.toList head block

/-- A method whose head spells a name in front of a parenthesis is found as a caller of that name,
whatever its block holds. -/
theorem mem_callersOf_of_head {name : String} (hu : u ∈ c.classes) (hm : caller ∈ u.methods)
    (located : Locator.Located u.source.toList caller.toList head block) (hn : name ≠ "")
    (spelled : name.toList ++ ['('] <:+: head) : ⟨u.fullName, caller⟩ ∈ c.callersOf d name := by
  have found := Locator.body?_eq_some_iff.mpr ⟨head, block, located, rfl⟩
  have token : name.toList ++ ['('] <:+: head ++ block :=
    spelled.trans (List.prefix_append _ _).isInfix
  have mentioned : name.toList <:+: u.source.toList :=
    ((List.prefix_append _ _).isInfix.trans token).trans (Locator.body?_infix found)
  obtain ⟨k, hk⟩ := d.exists_matcher hn
  have method := CallDetector.matcher?_method hk
  subst method
  exact mem_callersOf.mpr ⟨k, hk, u, hu, caller,
    ⟨hm, Text.occursIn_iff.mpr mentioned, _, found, CallMatcher.accepts_iff.mpr (.inl token)⟩, rfl⟩

end Corpus

namespace Tracer

variable (t : Tracer) (c : Corpus)

/-- An edge is borne out by the block of the caller or by what begins in its head. And a head alone
does make a caller: where callers were looked for, every other method whose head spells the name in
front of a parenthesis is recorded. -/
theorem edge_from_block_or_head (methods : List MethodRef) :
    let g := (t.traceFrom c methods).graph
    (∀ i j, (i, j) ∈ g.edges → ∃ m n k head block, g.node? i = some m ∧ g.node? j = some n ∧
      t.detector.matcher? m.methodName = some k ∧ c.Locates n head block ∧
      (k.accepts block = true ∨ k.MatchesInHead head block)) ∧
    ∀ i m, g.node? i = some m → m.methodName ≠ "" →
      g.callers i ≠ [] ∨ 0 < t.maxDepth ∧ i ∈ (t.traceFrom c methods).targets →
      ∀ u ∈ c.classes, ∀ name ∈ u.methods, ∀ head block,
        Locator.Located u.source.toList name.toList head block →
        m.methodName.toList ++ ['('] <:+: head →
        (MethodRef.mk u.fullName name).signature ≠ m.signature →
        ∃ j, g.index? (MethodRef.mk u.fullName name).signature = some j ∧ (i, j) ∈ g.edges := by
  intro g
  obtain ⟨searched, traced⟩ := t.traceFrom_traced c methods
  constructor
  · intro i j he
    obtain ⟨_, m, p, hm, hp, hx⟩ := traced.sound.justified he
    obtain ⟨n, hn, hs⟩ := (CallGraph.index?_eq_some_iff traced.valid).mp hx
    obtain ⟨k, hk, u, hu, name, ⟨hl, _, body, hb, accepted⟩, rfl⟩ := Corpus.mem_callersOf.mp hp
    obtain ⟨head, block, located, rfl⟩ := Locator.body?_eq_some_iff.mp hb
    exact ⟨m, n, k, head, block, hm, hn, hk, ⟨u, hu, name, hl, hs.symm, located⟩,
      CallMatcher.accepts_block_or_matchesInHead accepted⟩
  · intro i m hm named looked u hu name hl head block located spelled hne
    have hi : i ∈ searched := by
      rcases looked with some | ⟨hd, hi⟩
      · by_contra hi
        exact some (traced.callers_eq_nil hi)
      · exact traced.started hd i hi
    have found := Corpus.mem_callersOf_of_head (d := t.detector) hu hl located named spelled
    obtain ⟨j, hx, hj⟩ := traced.complete i hi m hm _ found
    refine ⟨j, hx, hj.resolve_left ?_⟩
    rintro rfl
    obtain ⟨p, hp, hs⟩ := (CallGraph.index?_eq_some_iff traced.valid).mp hx
    rw [Option.some.inj (hp.symm.trans hm)] at hs
    exact hne hs.symm

/-- Two classes with a method of one name, which calls nothing in either. -/
def namesakes : Corpus :=
  ⟨[⟨"A", "A", "", ["foo"], [], "public void foo() { }"⟩,
    ⟨"B", "B", "", ["foo"], [], "public void foo() { }"⟩], []⟩

theorem namesakes_located : Locator.Located "public void foo() { }".toList "foo".toList
    "public void foo() ".toList "{ }".toList := by
  have found : Locator.body? "public void foo() { }".toList "foo".toList =
      some "public void foo() { }".toList := by decide +kernel
  obtain ⟨head, block, located, text⟩ := Locator.body?_eq_some_iff.mp found
  obtain ⟨hh, hb⟩ := located.parts (by decide)
  rw [← text] at hh hb
  have first : Locator.headPart "public void foo() { }".toList = "public void foo() ".toList := by
    decide +kernel
  have second : Locator.blockPart "public void foo() { }".toList = "{ }".toList := by decide +kernel
  rw [first] at hh
  rw [second] at hb
  rwa [hh, hb]

theorem namesakes_recorded :
    let g := ((bare 5).traceFrom namesakes [⟨"A", "foo"⟩]).graph
    ((0, 1) ∈ g.edges ∧ ∃ m n k head block, g.node? 0 = some m ∧ g.node? 1 = some n ∧
      (bare 5).detector.matcher? m.methodName = some k ∧ namesakes.Locates n head block ∧
      (k.accepts block = true ∨ k.MatchesInHead head block)) ∧
    g.node? 0 = some ⟨"A", "foo"⟩ ∧ g.callers 0 ≠ [] ∧
      "foo".toList ++ ['('] <:+: "public void foo() ".toList ∧
      ∃ j, g.index? "B.foo" = some j ∧ (0, j) ∈ g.edges := by
  intro g
  have h := edge_from_block_or_head (bare 5) namesakes [⟨"A", "foo"⟩]
  have edge : (0, 1) ∈ g.edges := by decide +kernel
  have node : g.node? 0 = some ⟨"A", "foo"⟩ := by decide +kernel
  have callers : g.callers 0 ≠ [] := by decide +kernel
  have spelled : "foo".toList ++ ['('] <:+: "public void foo() ".toList := by decide
  have other : ⟨"B", "B", "", ["foo"], [], "public void foo() { }"⟩ ∈ namesakes.classes := by
    simp [namesakes]
  exact ⟨⟨edge, h.1 0 1 edge⟩, node, callers, spelled,
    h.2 0 ⟨"A", "foo"⟩ node (by decide) (.inl callers) _ other "foo" List.mem_cons_self _ _
      namesakes_located spelled (by decide)⟩

/-- The block of a caller need not hold what makes it a caller. -/
theorem edge_not_always_from_block : ¬∀ (t : Tracer) (c : Corpus) (methods : List MethodRef),
    ∀ i j, (i, j) ∈ (t.traceFrom c methods).graph.edges → ∃ m n k head block,
      (t.traceFrom c methods).graph.node? i = some m ∧
      (t.traceFrom c methods).graph.node? j = some n ∧
      t.detector.matcher? m.methodName = some k ∧ c.Locates n head block ∧
      k.accepts block = true := by
  intro h
  obtain ⟨m, n, k, head, block, hm, _, hk, ⟨u, hu, name, hl, _, located⟩, accepted⟩ :=
    h (bare 5) namesakes [⟨"A", "foo"⟩] 0 1 (by decide +kernel)
  have target : ((bare 5).traceFrom namesakes [⟨"A", "foo"⟩]).graph.node? 0 =
      some ⟨"A", "foo"⟩ := by decide +kernel
  cases hm.symm.trans target
  have plain : (bare 5).detector.matcher? "foo" = some ⟨"foo", []⟩ := rfl
  cases hk.symm.trans plain
  have same : u.source = "public void foo() { }" ∧ name = "foo" := by
    simp only [namesakes, List.mem_cons, List.not_mem_nil, or_false] at hu
    rcases hu with rfl | rfl <;> exact ⟨rfl, List.mem_singleton.mp hl⟩
  rw [same.1, same.2] at located
  rw [(located.unique namesakes_located).2] at accepted
  exact absurd accepted (by decide +kernel)

end Tracer

end AppSurface
