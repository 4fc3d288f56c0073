import AppSurface.Proofs.Classification

namespace AppSurface

open Xml

namespace Xml.Span

/-- A tag of a kind that lies inside gives this name. -/
def Declares (x : Span) (kind name : String) : Prop :=
  ∃ y ∈ spans x.inside, y.tag.name = kind ∧ y.value "android:name" = name

/-- An intent filter with the main action and the launcher category inside. -/
def IsLauncherFilter (x : Span) : Prop :=
  x.tag.name = "intent-filter" ∧ x.Declares "action" "android.intent.action.MAIN" ∧
    x.Declares "category" "android.intent.category.LAUNCHER"

/-- An activity with a launcher filter inside. -/
def IsLauncher (x : Span) : Prop :=
  x.tag.name = "activity" ∧ ∃ y ∈ spans x.inside, y.IsLauncherFilter

instance (x : Span) (kind name : String) : Decidable (x.Declares kind name) :=
  inferInstanceAs (Decidable (∃ y ∈ _, _))

instance : DecidablePred IsLauncherFilter := fun _ => inferInstanceAs (Decidable (_ ∧ _ ∧ _))

instance : DecidablePred IsLauncher := fun _ => inferInstanceAs (Decidable (_ ∧ ∃ y ∈ _, _))

/-- The activity that stands first among those with a launcher filter. -/
def IsFirstLauncher (tags : List Span) (x : Span) : Prop :=
  ∃ before after, tags = before ++ x :: after ∧ x.IsLauncher ∧ ∀ y ∈ before, ¬y.IsLauncher

end Xml.Span

variable {e root : Element} {es : List Element} {x y : Span} {xs : List Span} {document : String}
  {kind name : String}

theorem any_eq_of_holds {p : Span → Bool} {q : Element → Bool}
    (h : List.Forall₂ Span.Holds xs es) (hpq : ∀ x e, x.Holds e → p x = q e) :
    xs.any p = es.any q := by
  have same := congrArg (List.any · id) (map_eq_of_holds h hpq)
  simpa [List.any_map, Function.comp_def] using same

/-- The first element of a kind and the first span of it have the same values. -/
theorem find?_map_of_holds {β : Type} {p : Span → Bool} {q : Element → Bool} {f : Span → β}
    {g : Element → β} (h : List.Forall₂ Span.Holds xs es) (hpq : ∀ x e, x.Holds e → p x = q e)
    (hfg : ∀ x e, x.Holds e → f x = g e) : (xs.find? p).map f = (es.find? q).map g := by
  induction h with
  | nil => rfl
  | @cons x e xs es first _ ih =>
    have own := hpq x e first
    cases hq : q e with
    | true =>
      rw [List.find?_cons_of_pos (own.trans hq), List.find?_cons_of_pos hq]
      exact congrArg some (hfg x e first)
    | false =>
      rw [List.find?_cons_of_neg (by simp [own, hq]), List.find?_cons_of_neg (by simp [hq])]
      exact ih

theorem declares_iff (h : x.Holds e) : x.Declares kind name ↔
    (e.within kind).any (fun d => d.value "android:name" == name) = true := by
  rw [← any_eq_of_holds (p := fun y => y.value "android:name" == name) (h.enclosed kind)
    fun y d hy => by rw [hy.value]]
  simp [Span.Declares, Span.enclosed]

theorem isLauncherFilter_iff (h : x.Holds e) : isLauncherFilter e = true ↔
    x.Declares "action" "android.intent.action.MAIN" ∧
      x.Declares "category" "android.intent.category.LAUNCHER" := by
  rw [declares_iff h, declares_iff h, isLauncherFilter, Bool.and_eq_true]

theorem isLauncher_iff (h : x.Holds e) : x.IsLauncher ↔
    e.name = "activity" ∧ (e.within "intent-filter").any isLauncherFilter = true := by
  have alike : ∀ (y : Span) (d : Element), y.Holds d →
      decide (y.Declares "action" "android.intent.action.MAIN" ∧
        y.Declares "category" "android.intent.category.LAUNCHER") = isLauncherFilter d := by
    intro y d hy
    rw [Bool.eq_iff_iff, isLauncherFilter_iff hy, decide_eq_true_iff]
  rw [← any_eq_of_holds (h.enclosed "intent-filter") alike, ← h.name]
  simp [Span.IsLauncher, Span.IsLauncherFilter, Span.enclosed]

/-- The activity that the launcher starts is found among the tags. -/
theorem mainActivity?_eq_find? (package : String) (h : Xml.parse document = .ok root) :
    mainActivity? root package =
      ((spans (eventsOf document.toList).events).find? (·.IsLauncher)).map
        fun x => componentName (x.value "android:name") package := by
  have found := find?_map_of_holds (forall₂_holds_of_parse h) (p := (·.IsLauncher))
    (q := fun e => e.name == "activity" && (e.within "intent-filter").any isLauncherFilter)
    (f := fun x => componentName (x.value "android:name") package)
    (g := fun e => componentName (e.value "android:name") package)
    (fun x e he => by
      rw [Bool.eq_iff_iff, decide_eq_true_iff, isLauncher_iff he, Bool.and_eq_true, beq_iff_eq])
    (fun x e he => by rw [he.value])
  rw [found, mainActivity?, Element.named, List.find?_filter]
  simp only [Bool.decide_and, Bool.decide_eq_true]
  rfl

theorem isFirstLauncher_iff :
    Span.IsFirstLauncher xs x ↔ xs.find? (·.IsLauncher) = some x := by
  rw [List.find?_eq_some_iff_append, Span.IsFirstLauncher]
  constructor
  · rintro ⟨before, after, split, launcher, none⟩
    exact ⟨by simpa using launcher, before, after, split, by simpa using none⟩
  · rintro ⟨launcher, before, after, split, none⟩
    exact ⟨before, after, split, by simpa using launcher, by simpa using none⟩

theorem mem_names_iff (nonempty : name ≠ "") : name ∈ x.names kind ↔ x.Declares kind name := by
  simp [Span.names, Span.enclosed, Span.Declares, nonempty, and_assoc]

theorem launcher_clauses (launcher : x.IsLauncherFilter) :
    "Action: android.intent.action.MAIN" ∈ x.clauses ∧
      "Category: android.intent.category.LAUNCHER" ∈ x.clauses := by
  obtain ⟨-, main, category⟩ := launcher
  have action := List.mem_map_of_mem (f := ("Action: " ++ ·))
    ((mem_names_iff (by decide)).mpr main)
  have category := List.mem_map_of_mem (f := ("Category: " ++ ·))
    ((mem_names_iff (by decide)).mpr category)
  exact ⟨List.mem_append_left _ (List.mem_append_left _ action),
    List.mem_append_left _ (List.mem_append_right _ category)⟩

theorem infix_intercalate {α : Type} {part : List α} {parts : List (List α)} (separator : List α)
    (mem : part ∈ parts) : part <:+: separator.intercalate parts := by
  induction parts with
  | nil => cases mem
  | cons first parts ih =>
    cases parts with
    | nil =>
      obtain rfl := List.mem_singleton.mp mem
      simp
    | cons next parts =>
      rw [List.intercalate_cons_cons]
      rcases List.mem_cons.mp mem with rfl | mem
      · rw [List.append_assoc]
        exact (List.prefix_append _ _).isInfix
      · exact (ih mem).trans (List.suffix_append _ _).isInfix

/-- The description of a launcher filter is not empty. -/
theorem describe_ne_empty (launcher : x.IsLauncherFilter) : ", ".intercalate x.clauses ≠ "" := by
  intro empty
  have part := infix_intercalate ", ".toList
    (List.mem_map_of_mem (f := String.toList) (launcher_clauses launcher).1)
  rw [← String.toList_intercalate, empty] at part
  exact absurd (List.infix_nil.mp part) (by decide)

/-- The record of an activity with a launcher filter describes that filter. -/
theorem launcher_described (package : String) (launcher : x.IsLauncher) :
    ∃ y ∈ spans x.inside, y.IsLauncherFilter ∧
      ", ".intercalate y.clauses ∈ (x.component .activity package).intentFilters := by
  obtain ⟨-, y, hy, filter⟩ := launcher
  have enclosed : y ∈ x.enclosed "intent-filter" :=
    List.mem_filter.mpr ⟨hy, by simpa using filter.1⟩
  refine ⟨y, hy, filter, List.mem_filter.mpr ⟨List.mem_map_of_mem enclosed, ?_⟩⟩
  simpa using describe_ne_empty filter

theorem exported_of_launcher (launcher : x.IsLauncher)
    (allowed : x.value "android:exported" ≠ "false") : x.Exported := by
  obtain ⟨-, y, hy, filter⟩ := launcher
  by_cases ht : x.value "android:exported" = "true"
  · exact .inl ht
  · exact .inr ⟨ht, allowed, y, hy, filter.1⟩

theorem component_mem {type : ComponentType} (package : String)
    (h : Xml.parse document = .ok root) (mem : x ∈ spans (eventsOf document.toList).events)
    (tag : x.tag.name = type.name) (exported : x.Exported) :
    x.component type package ∈ exportedComponents root package := by
  refine List.mem_flatMap.mpr ⟨type, by cases type <;> decide, ?_⟩
  rw [Element.named, filterMap_componentOf? type package (forall₂_holds_of_parse h)]
  exact List.mem_map_of_mem (List.mem_filter.mpr ⟨mem, by simp [tag, exported]⟩)

/-- The launcher starts the first activity that has a filter inside with the main action and the
launcher category in it, if there is one. This activity is among the exported components, unless it
says that it is not exported, and both the action and the category stand in the description of one
of its filters. -/
theorem mainActivity?_first (package : String) (h : Xml.parse document = .ok root) :
    let tags := spans (eventsOf document.toList).events
    (mainActivity? root package = none ↔ ∀ x ∈ tags, ¬x.IsLauncher) ∧
    (∀ name, mainActivity? root package = some name ↔
      ∃ x, Span.IsFirstLauncher tags x ∧ name = componentName (x.value "android:name") package) ∧
    ∀ x, Span.IsFirstLauncher tags x → x.value "android:exported" ≠ "false" →
      ∃ c ∈ exportedComponents root package, c.type = .activity ∧
        mainActivity? root package = some c.name ∧
        ∃ y ∈ spans x.inside, y.IsLauncherFilter ∧ ", ".intercalate y.clauses ∈ c.intentFilters ∧
          "Action: android.intent.action.MAIN" ∈ y.clauses ∧
          "Category: android.intent.category.LAUNCHER" ∈ y.clauses := by
  intro tags
  have found := mainActivity?_eq_find? package h
  refine ⟨?_, ?_, ?_⟩
  · rw [found, Option.map_eq_none_iff, List.find?_eq_none]
    simp [tags]
  · intro name
    simp only [found, Option.map_eq_some_iff, ← isFirstLauncher_iff, eq_comm (a := name)]
    rfl
  · intro x first exported
    have found := found.trans (congrArg _ (isFirstLauncher_iff.mp first))
    obtain ⟨before, after, split, launcher, -⟩ := first
    have mem : x ∈ tags := by simp [split]
    obtain ⟨y, hy, filter, described⟩ := launcher_described package launcher
    exact ⟨x.component .activity package,
      component_mem package h mem launcher.1 (exported_of_launcher launcher exported), rfl, found,
      y, hy, filter, described, launcher_clauses filter⟩

/-- The first activity has the action and the category in different filters, and the second has them
in one. -/
theorem secondActivity_first :
    let document := "<m>" ++
      "<activity android:name='.A'>" ++
      "<intent-filter><action android:name='android.intent.action.MAIN'/></intent-filter>" ++
      "<intent-filter><category android:name='android.intent.category.LAUNCHER'/>" ++
      "</intent-filter></activity><activity android:name='.B'><intent-filter>" ++
      "<action android:name='android.intent.action.MAIN'/>" ++
      "<category android:name='android.intent.category.LAUNCHER'/>" ++
      "</intent-filter></activity></m>"
    ∃ root, Xml.parse document = .ok root ∧ mainActivity? root "p" = some "p.B" ∧
      ∃ c ∈ exportedComponents root "p", c.type = .activity ∧ c.name = "p.B" ∧
        ∃ clauses : List String, ", ".intercalate clauses ∈ c.intentFilters ∧
          "Action: android.intent.action.MAIN" ∈ clauses ∧
          "Category: android.intent.category.LAUNCHER" ∈ clauses := by
  intro document
  have run : (Xml.parse document).isOk = true ∧
      ((spans (eventsOf document.toList).events).find? (·.IsLauncher)).map
        (fun x => (componentName (x.value "android:name") "p", x.value "android:exported")) =
          some ("p.B", "") := by
    rw [Xml.parse]
    -- the characters are listed, since texts are slow to evaluate
    generalize chars : document.toList = cs
    simp only [document, String.toList_append] at chars
    repeat rw [String.toList_ofList] at chars
    subst chars
    exact ⟨by decide +kernel, by decide +kernel⟩
  obtain ⟨accepted, values⟩ := run
  obtain ⟨x, first, values⟩ := Option.map_eq_some_iff.mp values
  obtain ⟨name, exported⟩ := Prod.mk.inj values
  have first := isFirstLauncher_iff.mpr first
  cases h : Xml.parse document with
  | error fault =>
    rw [h] at accepted
    cases accepted
  | ok root =>
    obtain ⟨-, starts, lists⟩ := mainActivity?_first "p" h
    have started := (starts "p.B").mpr ⟨x, first, name.symm⟩
    obtain ⟨c, hc, type, named, y, -, -, described, action, category⟩ :=
      lists x first (by rw [exported]; decide)
    exact ⟨root, rfl, started, c, hc, type, Option.some.inj (named.symm.trans started), y.clauses,
      described, action, category⟩

end AppSurface
