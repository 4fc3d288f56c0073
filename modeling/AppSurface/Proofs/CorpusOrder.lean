import AppSurface.Proofs.ByteOrder
import AppSurface.Proofs.ClassOrder
import AppSurface.Session

namespace AppSurface.Corpus

variable {given other sorted : List ClassUnit} {resources : List Resource} {c c' : Corpus}
  {name : String}

/-- The same classes in another order, in which those of one name stand as before. -/
structure Rearranged (given other : List ClassUnit) : Prop where
  perm : other.Perm given
  stable (name : String) :
    other.filter (fun u => u.fullName == name) = given.filter fun u => u.fullName == name

/-- Two corpora give the same targets, suggestions, search results and call graphs, whatever is
asked and however they are configured. -/
structure SameAnswers (c c' : Corpus) : Prop where
  resolve : ∀ query limit, c.resolve query limit = c'.resolve query limit
  similarMethods : ∀ query limit, c.similarMethods query limit = c'.similarMethods query limit
  trace : ∀ (t : Tracer) query, t.trace c query = t.trace c' query
  traceFrom : ∀ (t : Tracer) methods, t.traceFrom c methods = t.traceFrom c' methods
  session : ∀ config read s s', Session.start c config read = .ok s →
    Session.start c' config read = .ok s' → ∀ query,
      s.searchClasses query = s'.searchClasses query ∧
      s.searchMethods query = s'.searchMethods query ∧ s.trace query = s'.trace query

theorem sameAnswers_of_eq (h : c = c') : SameAnswers c c' := by
  subst h
  refine ⟨fun _ _ => rfl, fun _ _ => rfl, fun _ _ => rfl, fun _ _ => rfl, ?_⟩
  intro config read s s' opens opens' query
  obtain rfl := Except.ok.inj (opens.symm.trans opens')
  exact ⟨rfl, rfl, rfl⟩

/-- There is only one stable sort of some classes by name. -/
theorem NameOrder.eq_classes (h : NameOrder given sorted) :
    sorted = (ofParts given resources).classes :=
  eq_of_ascending_by h.ascending classes_ascending fun name =>
    (h.stable name).trans (filter_classes name).symm

theorem rearranged_iff :
    Rearranged given other ↔ ofParts other resources = ofParts given resources := by
  constructor
  · intro h
    simp only [ofParts, mk.injEq, and_true]
    exact mergeSort_key_eq_iff.2 h.stable
  · intro equal
    have classes := congrArg Corpus.classes equal
    have permuted : (ofParts given resources).classes.Perm other := classes ▸ classes_perm
    refine ⟨permuted.symm.trans classes_perm, fun name => ?_⟩
    have sorted : (ofParts given resources).classes.filter (fun u => u.fullName == name) =
        other.filter fun u => u.fullName == name := classes ▸ filter_classes name
    exact sorted.symm.trans (filter_classes name)

/-- Without repeated names, any order will do. -/
theorem rearranged_of_nodup (perm : other.Perm given) (nodup : (given.map (·.fullName)).Nodup) :
    Rearranged given other := by
  refine ⟨perm, fun name => ?_⟩
  have permuted := perm.filter fun u => u.fullName == name
  have few : (given.filter fun u => u.fullName == name).length ≤ 1 := by
    rw [← List.countP_eq_length_filter]
    have once := List.nodup_iff_count.1 nodup name
    rwa [List.count, List.countP_map] at once
  generalize given.filter (fun u => u.fullName == name) = us at permuted few
  match us with
  | [] => exact List.perm_nil.1 permuted
  | [u] => exact List.perm_singleton.1 permuted
  | u :: v :: us => simp at few

theorem findClass?_ofParts (name : String) :
    (ofParts given resources).findClass? name = given.find? fun u => u.fullName == name := by
  rw [findClass?, ← List.head?_filter, filter_classes, List.head?_filter]

/-- A corpus holds the given classes in ascending order of the bytes of their names, those of one
name as they were given. This is the only such list, and two lists of classes give the same corpus
exactly if they differ by a rearrangement, which any order of classes with distinct names is. So the
answers do not depend on the order, and a class is found as in the list that was given. -/
theorem ofParts_canonical (given : List ClassUnit) (resources : List Resource) :
    (NameOrder given (ofParts given resources).classes ∧
      (ofParts given resources).classes.Pairwise fun a b => bytes a.fullName ≤ bytes b.fullName) ∧
    (∀ sorted, NameOrder given sorted → sorted = (ofParts given resources).classes) ∧
    (∀ other, Rearranged given other ↔ ofParts other resources = ofParts given resources) ∧
    (∀ other, other.Perm given → (given.map (·.fullName)).Nodup → Rearranged given other) ∧
    (∀ other, Rearranged given other →
      SameAnswers (ofParts other resources) (ofParts given resources)) ∧
    ∀ name, (ofParts given resources).findClass? name =
        given.find? (fun u => u.fullName == name) ∧
      ((ofParts given resources).findClass? name = none ↔ ∀ u ∈ given, u.fullName ≠ name) := by
  refine ⟨⟨nameOrder, classes_ascending.imp le_iff_bytes_le.1⟩, fun _ => NameOrder.eq_classes,
    fun _ => rearranged_iff, fun _ => rearranged_of_nodup,
    fun _ h => sameAnswers_of_eq (rearranged_iff.1 h), fun name => ⟨findClass?_ofParts name, ?_⟩⟩
  simp [findClass?_ofParts]

/-- A class of which nothing but its name and one method is known. -/
def oneMethod (fullName method : String) : ClassUnit := ⟨fullName, fullName, "", [method], [], ""⟩

/-- Two classes of one name with another class in between, and the same classes sorted. -/
def twoZeds : List ClassUnit := [oneMethod "b.Zed" "first", oneMethod "a.Alpha" "run",
  oneMethod "b.Zed" "second"]

def twoZedsSorted : List ClassUnit := [oneMethod "a.Alpha" "run", oneMethod "b.Zed" "first",
  oneMethod "b.Zed" "second"]

theorem twoZeds_nameOrder : NameOrder twoZeds twoZedsSorted := by
  refine ⟨.swap _ _ _, by simp [Ascending, twoZedsSorted, oneMethod], fun name => ?_⟩
  by_cases zed : "b.Zed" = name
  · subst zed
    rfl
  · simp [twoZeds, twoZedsSorted, oneMethod, List.filter_cons, zed]

theorem twoZeds_canonical :
    let zed := oneMethod "b.Zed" "first"
    let alpha := oneMethod "a.Alpha" "run"
    NameOrder twoZeds twoZedsSorted ∧ twoZedsSorted = (ofParts twoZeds []).classes ∧
      Rearranged twoZeds twoZedsSorted ∧
      SameAnswers (ofParts twoZedsSorted []) (ofParts twoZeds []) ∧
      [alpha, zed].Perm [zed, alpha] ∧ ([zed, alpha].map (·.fullName)).Nodup ∧
      Rearranged [zed, alpha] [alpha, zed] := by
  intro zed alpha
  have order := twoZeds_nameOrder
  have rearranged : Rearranged twoZeds twoZedsSorted := ⟨order.perm, order.stable⟩
  have swapped : [alpha, zed].Perm [zed, alpha] := .swap _ _ _
  have nodup : ([zed, alpha].map (·.fullName)).Nodup := by decide
  obtain ⟨-, unique, -, -, answers, -⟩ := ofParts_canonical twoZeds []
  exact ⟨order, unique _ order, rearranged, answers _ rearranged, swapped, nodup,
    (ofParts_canonical [zed, alpha] []).2.2.2.1 _ swapped nodup⟩

end AppSurface.Corpus
