import AppSurface.Callers

namespace AppSurface

variable {c : Corpus} {d : CallDetector} {u : ClassUnit} {k : CallMatcher} {m : MethodRef}
  {name : String}

theorem CallDetector.matcher?_method (h : d.matcher? name = some k) : k.method = name := by
  unfold matcher? at h
  split at h
  · cases h
  · rw [← Option.some.inj h]

theorem CallDetector.exists_matcher (d : CallDetector) (h : name ≠ "") :
    ∃ k, d.matcher? name = some k := by
  simp [matcher?, String.isEmpty_iff, h]

/-- The located text of `caller`, a method of `u`, contains a call by the measure of `k`. -/
def CallMatcher.Finds (k : CallMatcher) (u : ClassUnit) (caller : String) : Prop :=
  caller ∈ u.methods ∧ Text.contains u.source k.method = true ∧
    ∃ body, Locator.body? u.source.toList caller.toList = some body ∧ k.accepts body = true

theorem CallMatcher.calledBy_iff {source : List Char} {caller : String} :
    k.calledBy source caller = true ↔
      ∃ body, Locator.body? source caller.toList = some body ∧ k.accepts body = true := by
  unfold calledBy
  cases Locator.body? source caller.toList <;> simp

theorem ClassUnit.mem_callers :
    m ∈ u.callers k ↔ ∃ caller, k.Finds u caller ∧ m = ⟨u.fullName, caller⟩ := by
  unfold callers
  split
  next h =>
    simp only [List.mem_map, List.mem_filter, CallMatcher.calledBy_iff, CallMatcher.Finds, h,
      true_and]
    constructor
    · rintro ⟨caller, hc, rfl⟩
      exact ⟨caller, hc, rfl⟩
    · rintro ⟨caller, hc, rfl⟩
      exact ⟨caller, hc, rfl⟩
  next h => simp [CallMatcher.Finds, h]

/-- The search finds exactly the methods that some class lists and whose text contains a call. -/
theorem Corpus.mem_callersOf :
    m ∈ c.callersOf d name ↔ ∃ k, d.matcher? name = some k ∧ ∃ u ∈ c.classes, ∃ caller,
      k.Finds u caller ∧ m = ⟨u.fullName, caller⟩ := by
  unfold callersOf
  split
  next h => simp [h]
  next k h => simp [h, ClassUnit.mem_callers]

theorem Corpus.callersOf_subset_methods (h : m ∈ c.callersOf d name) : m ∈ c.methods := by
  obtain ⟨k, _, u, hu, caller, hj, rfl⟩ := mem_callersOf.mp h
  exact List.mem_flatMap.mpr ⟨u, hu, List.mem_map.mpr ⟨caller, hj.1, rfl⟩⟩

/-- Some class of the corpus lists a method with the signature of `caller`, mentions the name of
`callee` and holds a text of that method in which `callee` is called. -/
def Corpus.Justifies (c : Corpus) (d : CallDetector) (callee caller : MethodRef) : Prop :=
  ∃ k, d.matcher? callee.methodName = some k ∧ ∃ u ∈ c.classes, ∃ name ∈ u.methods,
    (MethodRef.mk u.fullName name).signature = caller.signature ∧
      Text.contains u.source callee.methodName = true ∧
      ∃ body, Locator.body? u.source.toList name.toList = some body ∧ k.accepts body = true

theorem Corpus.justifies_of_mem_callersOf {callee caller : MethodRef}
    (hm : m ∈ c.callersOf d callee.methodName) (hs : m.signature = caller.signature) :
    c.Justifies d callee caller := by
  obtain ⟨k, hk, u, hu, name, ⟨hl, ht, body, hb, ha⟩, rfl⟩ := mem_callersOf.mp hm
  rw [CallDetector.matcher?_method hk] at ht
  exact ⟨k, hk, u, hu, name, hl, hs, ht, body, hb, ha⟩

/-- One caller hop: the search finds `caller` as a caller of the name of `callee`. A method is no
caller of itself. -/
def Corpus.Calls (c : Corpus) (d : CallDetector) (callee caller : MethodRef) : Prop :=
  caller ∈ c.callersOf d callee.methodName ∧ caller.signature ≠ callee.signature

end AppSurface
