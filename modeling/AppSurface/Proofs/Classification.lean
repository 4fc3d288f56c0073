import AppSurface.Manifest
import AppSurface.Proofs.TagSpan

namespace AppSurface

open Xml

namespace Xml.Span

/-- A tag is exported if it says so, or if it says nothing to the point and an intent filter lies
inside. -/
def Exported (x : Span) : Prop :=
  x.value "android:exported" = "true" ∨
    x.value "android:exported" ≠ "true" ∧ x.value "android:exported" ≠ "false" ∧
      ∃ y ∈ spans x.inside, y.tag.name = "intent-filter"

instance : DecidablePred Exported := fun _ => inferInstanceAs (Decidable (_ ∨ _))

/-- The names that the tags of a kind inside give, without empty ones. -/
def names (x : Span) (kind : String) : List String :=
  ((x.enclosed kind).map (·.value "android:name")).filter (· ≠ "")

/-- An attribute by its name in a clause, unless its value is empty. -/
def given (x : Span) (name key : String) : List String :=
  if x.value key = "" then [] else [name ++ "=" ++ x.value key]

/-- The parts of a data tag: scheme, host, path and type. -/
def parts (x : Span) : List String :=
  x.given "scheme" "android:scheme" ++ x.given "host" "android:host" ++
    x.given "path" "android:path" ++ x.given "mimeType" "android:mimeType"

/-- The clauses of an intent filter: actions, then categories, then data. -/
def clauses (x : Span) : List String :=
  (x.names "action").map ("Action: " ++ ·) ++ (x.names "category").map ("Category: " ++ ·) ++
    (((x.enclosed "data").map parts).filter (· ≠ [])).map ("Data: " ++ " ".intercalate ·)

/-- The record of a component, with a description of each intent filter inside that has a
clause. -/
def component (type : ComponentType) (package : String) (x : Span) : Component where
  type := type
  name := componentName (x.value "android:name") package
  permission := x.value "android:permission"
  exported := true
  intentFilters :=
    ((x.enclosed "intent-filter").map fun y => ", ".intercalate y.clauses).filter (· ≠ "")

end Xml.Span

variable {e root : Element} {es : List Element} {x : Span} {xs : List Span} {document : String}

theorem filter_not_isEmpty (l : List String) :
    (l.filter fun s => !s.isEmpty) = l.filter (· ≠ "") := by
  apply List.filter_congr
  intro s _
  rw [Bool.eq_iff_iff]
  simp

/-- The attributes of a data element are listed under their names without the part in front of the
colon. -/
theorem parts_of_holds (h : x.Holds e) : x.parts = dataParts e := by
  have given : ∀ name key, x.given name key =
      (if (e.value key).isEmpty then none else some (name ++ "=" ++ e.value key)).toList := by
    intro name key
    rw [Span.given, h.value]
    by_cases empty : e.value key = "" <;> simp [empty]
  rw [Span.parts, dataParts, List.filterMap_eq_flatMap_toList]
  simp only [given, List.flatMap_cons, List.flatMap_nil, List.append_nil, List.append_assoc]
  rfl

theorem filterNames_of_holds (h : x.Holds e) (kind : String) :
    x.names kind = filterNames e kind := by
  rw [Span.names, filterNames, filter_not_isEmpty,
    map_eq_of_holds (h.enclosed kind) fun y d hy => hy.value "android:name"]

theorem clauses_of_holds (h : x.Holds e) : ", ".intercalate x.clauses = describeFilter e := by
  rw [Span.clauses, describeFilter, filterNames_of_holds h, filterNames_of_holds h,
    map_eq_of_holds (h.enclosed "data") fun y d hy => parts_of_holds hy]
  have given : ((e.within "data").map dataParts).filter (fun parts => !parts.isEmpty) =
      ((e.within "data").map dataParts).filter (· ≠ []) :=
    List.filter_congr fun parts _ => by cases parts <;> simp
  rw [← given]

theorem isExported_iff (h : x.Holds e) : isExported e = true ↔ x.Exported := by
  have filters : (e.within "intent-filter").isEmpty = false ↔
      ∃ y ∈ spans x.inside, y.tag.name = "intent-filter" := by
    have count := (h.enclosed "intent-filter").length_eq
    constructor
    · intro hne
      obtain ⟨y, hy⟩ := List.exists_mem_of_length_pos (l := x.enclosed "intent-filter") (by
        rw [count]
        exact List.length_pos_iff.mpr (by simpa using hne))
      obtain ⟨hy, name⟩ := List.mem_filter.mp hy
      exact ⟨y, hy, by simpa using name⟩
    · rintro ⟨y, hy, name⟩
      have hmem : y ∈ x.enclosed "intent-filter" := List.mem_filter.mpr ⟨hy, by simp [name]⟩
      have := List.length_pos_of_mem hmem
      rw [count] at this
      simpa using List.length_pos_iff.mp this
  unfold isExported Span.Exported
  rw [h.value]
  split
  next ht => simp [ht]
  next hf => simp [hf]
  next _ ht hf =>
    have ht : e.value "android:exported" ≠ "true" := ht
    have hf : e.value "android:exported" ≠ "false" := hf
    simpa [ht, hf] using filters

theorem componentOf?_of_holds (type : ComponentType) (package : String) (h : x.Holds e) :
    componentOf? type package e =
      if x.Exported then some (x.component type package) else none := by
  unfold componentOf?
  by_cases hx : x.Exported
  · rw [if_pos ((isExported_iff h).mpr hx), if_pos hx, Span.component, h.value, h.value,
      map_eq_of_holds (h.enclosed "intent-filter") fun y d hy => clauses_of_holds hy,
      filter_not_isEmpty]
  · rw [if_neg fun he => hx ((isExported_iff h).mp he), if_neg hx]

theorem filterMap_componentOf? (type : ComponentType) (package : String)
    (h : List.Forall₂ Span.Holds xs es) :
    (es.filter (·.name == type.name)).filterMap (componentOf? type package) =
      (xs.filter fun x => x.tag.name = type.name ∧ x.Exported).map (·.component type package) := by
  induction h with
  | nil => rfl
  | @cons x e xs es first _ ih =>
    have own := componentOf?_of_holds type package first
    by_cases hn : x.tag.name = type.name
    · have he : e.name = type.name := first.name.symm.trans hn
      by_cases hx : x.Exported
      · rw [if_pos hx] at own
        simpa [List.filter_cons, hn, he, hx, own] using ih
      · rw [if_neg hx] at own
        simpa [List.filter_cons, hn, he, hx, own] using ih
    · have he : e.name ≠ type.name := fun he => hn (first.name.trans he)
      simpa [List.filter_cons, hn, he] using ih

end AppSurface
