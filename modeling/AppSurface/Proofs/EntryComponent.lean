import AppSurface.Callers
import AppSurface.Proofs.Signature

namespace AppSurface

variable {name : String} {m : MethodRef} {c : Component} {cs : List Component} {className : String}

/-- The class is nested in something of this name, a class or a package. -/
def IsAround (name className : String) : Prop := (name ++ ".").toList <+: className.toList

def Component.Covers (c : Component) (className : String) : Prop :=
  c.name = className ∨ IsAround c.name className

/-- The annotation is the component that declares a class: one of its name, or else one with the
longest name around it. -/
structure IsDeclarer (cs : List Component) (className : String) (a : Option Component) : Prop where
  own : (∃ c ∈ cs, c.name = className) → ∃ c ∈ cs, c.name = className ∧ a = some c
  around : (∀ c ∈ cs, c.name ≠ className) → (∃ c ∈ cs, IsAround c.name className) →
    ∃ c ∈ cs, IsAround c.name className ∧ a = some c ∧
      ∀ b ∈ cs, IsAround b.name className → b.name.length ≤ c.name.length
  none : (∀ c ∈ cs, c.name ≠ className ∧ ¬IsAround c.name className) → a = none

theorem isAround_iff : IsAround name className ↔ name.toList ++ ['.'] <+: className.toList := by
  rw [IsAround, String.toList_append]
  rfl

/-- Where a dot stands in front of a text without dots, a part that ends with a dot ends there or
earlier. -/
theorem append_dot_prefix_iff {a b t : List Char} (ht : '.' ∉ t) :
    a ++ ['.'] <+: b ++ '.' :: t ↔ a = b ∨ a ++ ['.'] <+: b := by
  constructor
  · rintro ⟨u, hu⟩
    have split : a ++ ('.' :: u) = b ++ '.' :: t := by simpa using hu
    rcases List.append_eq_append_iff.mp split with ⟨v, hb, hv⟩ | ⟨v, ha, hv⟩
    · cases v with
      | nil => exact .inl (by simpa using hb.symm)
      | cons x v =>
        obtain ⟨rfl, _⟩ := List.cons.inj hv
        exact .inr ⟨v, by simp [hb]⟩
    · cases v with
      | nil => exact .inl (by simpa using ha)
      | cons x v =>
        obtain ⟨_, he⟩ := List.cons.inj hv
        exact absurd (by simp [he]) ht
  · rintro (rfl | h)
    · exact ⟨t, by simp⟩
    · exact h.trans (List.prefix_append _ _)

theorem startsWith_signature_iff (hm : m.Undotted) :
    Text.startsWith m.signature (name ++ ".") = true ↔
      name = m.className ∨ IsAround name m.className := by
  have dot : ".".toList = ['.'] := rfl
  rw [Text.startsWith, List.isPrefixOf_iff_prefix, m.signature_toList, String.toList_append, dot,
    append_dot_prefix_iff hm, String.toList_inj, isAround_iff]

theorem IsAround.length_lt (h : IsAround name className) : name.length < className.length := by
  have := (isAround_iff.mp h).length_le
  rw [List.length_append, List.length_singleton, String.length_toList, String.length_toList] at this
  omega

theorem Component.Covers.length_le (h : c.Covers className) : c.name.length ≤ className.length := by
  rcases h with rfl | h
  · exact Nat.le_refl _
  · exact Nat.le_of_lt h.length_lt

/-- A component that covers a class with a name at least as long as that of the class is named like
it. -/
theorem Component.Covers.eq_of_length_le (h : c.Covers className)
    (hl : className.length ≤ c.name.length) : c.name = className := by
  rcases h with h | h
  · exact h
  · have := h.length_lt
    omega

namespace Tracer

variable {t : Tracer}

theorem componentFor_eq_some (hm : m.Undotted) (h : t.componentFor m = some c) :
    c.Covers m.className ∧ ∃ before after, t.components = before ++ c :: after ∧
      ∀ b ∈ before, ¬b.Covers m.className := by
  obtain ⟨hc, before, after, split, earlier⟩ := List.find?_eq_some_iff_append.mp h
  refine ⟨(startsWith_signature_iff hm).mp hc, before, after, split, ?_⟩
  intro b hb covers
  have := earlier b hb
  rw [(startsWith_signature_iff hm).mpr covers] at this
  exact absurd this (by decide)

theorem componentFor_eq_none_iff (hm : m.Undotted) :
    t.componentFor m = none ↔ ∀ c ∈ t.components, ¬c.Covers m.className := by
  rw [componentFor, List.find?_eq_none]
  simp only [startsWith_signature_iff hm]
  rfl

theorem componentFor_eq_some_iff (hm : m.Undotted) : t.componentFor m = some c ↔
    c.Covers m.className ∧ ∃ before after, t.components = before ++ c :: after ∧
      ∀ b ∈ before, ¬b.Covers m.className := by
  refine ⟨componentFor_eq_some hm, ?_⟩
  rintro ⟨covers, before, after, split, earlier⟩
  have starts := (startsWith_signature_iff hm).mpr covers
  refine List.find?_eq_some_iff_append.mpr ⟨starts, before, after, split, ?_⟩
  intro b hb
  rw [Bool.not_eq_true', ← Bool.not_eq_true, startsWith_signature_iff hm]
  exact earlier b hb

/-- A class whose name goes on behind the name of a component, and not with a dot, is not covered by
the component. -/
theorem not_covers_of_continued {x : Char} {rest : List Char} (hx : x ≠ '.')
    (h : className.toList = c.name.toList ++ x :: rest) : ¬c.Covers className := by
  rintro (same | around)
  · have length := congrArg List.length h
    rw [← same, List.length_append, List.length_cons] at length
    omega
  · obtain ⟨u, hu⟩ := isAround_iff.mp around
    have split : c.name.toList ++ '.' :: u = c.name.toList ++ x :: rest := by
      simpa [h] using hu
    exact hx (List.cons.inj (List.append_cancel_left split)).1.symm

/-- A component is found for a method exactly if one covers its class, and it is the first that
does. A component whose name merely starts that of the class is not found. -/
theorem componentFor_first_covering (hm : m.Undotted) :
    ((t.componentFor m).isSome = true ↔ ∃ c ∈ t.components, c.Covers m.className) ∧
    (∀ c, t.componentFor m = some c ↔ c.Covers m.className ∧
      ∃ before after, t.components = before ++ c :: after ∧
        ∀ b ∈ before, ¬b.Covers m.className) ∧
    ∀ c x rest, m.className.toList = c.name.toList ++ x :: rest → x ≠ '.' →
      t.componentFor m ≠ some c := by
  refine ⟨?_, fun c => componentFor_eq_some_iff hm, ?_⟩
  · rw [Option.isSome_iff_ne_none, ne_eq, componentFor_eq_none_iff hm]
    push Not
    rfl
  · intro c x rest behind hx found
    exact not_covers_of_continued hx behind (componentFor_eq_some hm found).1

/-- Components named like a part of a class name that ends within a word, like the class around a
class, and like that class. -/
def noteComponents : List Component :=
  [⟨.activity, "app.Note", "", true, []⟩, ⟨.activity, "app.NoteView", "", true, []⟩,
    ⟨.service, "app.NoteView.Sync", "", true, []⟩]

theorem noteView_first_covering :
    let t : Tracer := ⟨⟨[]⟩, 5, 10, noteComponents⟩
    let m : MethodRef := ⟨"app.NoteView.Sync", "run"⟩
    m.Undotted ∧ t.componentFor m = some ⟨.activity, "app.NoteView", "", true, []⟩ ∧
      t.componentFor m ≠ some ⟨.activity, "app.Note", "", true, []⟩ := by
  intro t m
  have undotted : m.Undotted := by decide
  have behind : m.className.toList = "app.Note".toList ++ 'V' :: "iew.Sync".toList := by decide
  obtain ⟨-, found, merely⟩ := componentFor_first_covering (t := t) undotted
  refine ⟨undotted, (found _).mpr ⟨.inr (isAround_iff.mpr (by decide)), ?_⟩, ?_⟩
  · refine ⟨[⟨.activity, "app.Note", "", true, []⟩], _, rfl, ?_⟩
    exact List.forall_mem_singleton.mpr (not_covers_of_continued (by decide) behind)
  · exact merely _ _ _ behind (by decide)

/-- The component found declares the class exactly if no component that covers the class has a
longer name. -/
theorem isDeclarer_componentFor_iff (hm : m.Undotted) :
    IsDeclarer t.components m.className (t.componentFor m) ↔
      ∀ c, t.componentFor m = some c → ∀ b ∈ t.components, b.Covers m.className →
        b.name.length ≤ c.name.length := by
  constructor
  · intro declarer c hc b hb covers
    by_cases own : ∃ d ∈ t.components, d.name = m.className
    · obtain ⟨d, _, hd, he⟩ := declarer.own own
      have hdc : d = c := Option.some.inj (he.symm.trans hc)
      rw [← hdc, hd]
      exact covers.length_le
    · have strange : ∀ d ∈ t.components, d.name ≠ m.className :=
        fun d hd he => own ⟨d, hd, he⟩
      have around := covers.resolve_left (strange b hb)
      obtain ⟨d, _, _, he, longest⟩ := declarer.around strange ⟨b, hb, around⟩
      have hdc : d = c := Option.some.inj (he.symm.trans hc)
      exact hdc ▸ longest b hb around
  · intro longest
    have found : ∀ b ∈ t.components, b.Covers m.className →
        ∃ c ∈ t.components, c.Covers m.className ∧ t.componentFor m = some c ∧
          b.name.length ≤ c.name.length := by
      intro b hb covers
      cases hf : t.componentFor m with
      | none => exact absurd covers ((componentFor_eq_none_iff hm).mp hf b hb)
      | some c =>
        obtain ⟨hc, _, _, split, _⟩ := componentFor_eq_some hm hf
        exact ⟨c, by simp [split], hc, rfl, longest c hf b hb covers⟩
    constructor
    · rintro ⟨b, hb, own⟩
      obtain ⟨c, hc, covers, hf, hl⟩ := found b hb (.inl own)
      exact ⟨c, hc, covers.eq_of_length_le (own ▸ hl), hf⟩
    · rintro strange ⟨b, hb, around⟩
      obtain ⟨c, hc, covers, hf, _⟩ := found b hb (.inr around)
      refine ⟨c, hc, covers.resolve_left (strange c hc), hf, ?_⟩
      exact fun d hd inside => longest c hf d hd (.inr inside)
    · intro strange
      refine (componentFor_eq_none_iff hm).mpr fun c hc covers => ?_
      exact covers.elim (strange c hc).1 (strange c hc).2

variable {g : CallGraph} {targets : List Nat} {e : EntryPoint}

theorem exported_eq (he : e ∈ t.entryPoints g targets) (hn : g.node? e.node = some m) :
    e.exported = t.componentFor m := by
  obtain ⟨i, _, rfl⟩ := List.mem_map.mp he
  exact (congrArg (·.bind t.componentFor) hn).trans (Option.bind_some _ _)

/-- An entry point is annotated with the first component that covers its class, if there is one.
That component declares the class exactly if none that covers the class has a longer name. -/
theorem entry_component_is_first (he : e ∈ t.entryPoints g targets)
    (hn : g.node? e.node = some m) (hm : m.Undotted) :
    (e.exported = none ↔ ∀ c ∈ t.components, ¬c.Covers m.className) ∧
    (∀ c, e.exported = some c → c.Covers m.className ∧
      ∃ before after, t.components = before ++ c :: after ∧
        ∀ b ∈ before, ¬b.Covers m.className) ∧
    (IsDeclarer t.components m.className e.exported ↔
      ∀ c, e.exported = some c → ∀ b ∈ t.components, b.Covers m.className →
        b.name.length ≤ c.name.length) := by
  rw [exported_eq he hn]
  exact ⟨componentFor_eq_none_iff hm, fun c hc => componentFor_eq_some hm hc,
    isDeclarer_componentFor_iff hm⟩

/-- An activity, and a service whose class is nested in that of the activity. -/
def nestedComponents : List Component :=
  [⟨.activity, "app.Outer", "", true, []⟩, ⟨.service, "app.Outer.Inner", "", true, []⟩]

/-- The class of the service, whose method calls `t`. -/
def nestedCaller : Corpus :=
  ⟨[⟨"app.Outer.Inner", "Inner", "app", ["m"], [], "final m(){t()}"⟩], []⟩

/-- The graph of the callers of `t`. -/
def nestedGraph : CallGraph :=
  ((⟨⟨[]⟩, 5, 10, nestedComponents⟩ : Tracer).graphOf nestedCaller [⟨"T", "t"⟩]).2

theorem nested_entry : ⟨1, some ⟨.activity, "app.Outer", "", true, []⟩⟩ ∈
    (⟨⟨[]⟩, 5, 10, nestedComponents⟩ : Tracer).entryPoints nestedGraph [0] := by decide +kernel

theorem nested_node : nestedGraph.node? 1 = some ⟨"app.Outer.Inner", "m"⟩ := by decide +kernel

theorem nested_component_is_first :
    let t : Tracer := ⟨⟨[]⟩, 5, 10, nestedComponents⟩
    let e : EntryPoint := ⟨1, some ⟨.activity, "app.Outer", "", true, []⟩⟩
    let m : MethodRef := ⟨"app.Outer.Inner", "m"⟩
    e ∈ t.entryPoints nestedGraph [0] ∧ nestedGraph.node? 1 = some m ∧ m.Undotted ∧
      (IsDeclarer t.components m.className e.exported ↔
        ∀ c, e.exported = some c → ∀ b ∈ t.components, b.Covers m.className →
          b.name.length ≤ c.name.length) := by
  intro t e m
  have undotted : m.Undotted := by decide
  exact ⟨nested_entry, nested_node, undotted,
    (entry_component_is_first nested_entry nested_node undotted).2.2⟩

/-- The annotation need not declare the class of an entry point: a component around the class can be
listed before the one that is named like it. -/
theorem entry_component_not_always_declarer :
    ¬∀ (t : Tracer) (g : CallGraph) (targets : List Nat) (e : EntryPoint) (m : MethodRef),
      e ∈ t.entryPoints g targets → g.node? e.node = some m → m.Undotted →
        IsDeclarer t.components m.className e.exported := by
  intro h
  have declarer := h _ _ _ _ _ nested_entry nested_node (by decide)
  obtain ⟨c, _, hc, he⟩ := declarer.own ⟨_, List.mem_cons_of_mem _ List.mem_cons_self, rfl⟩
  cases he
  exact absurd hc (by decide)

end Tracer

end AppSurface
