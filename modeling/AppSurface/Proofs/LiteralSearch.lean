import AppSurface.Session
import AppSurface.Proofs.LowerCase
import AppSurface.Proofs.SimilarNames

namespace AppSurface

open Unicode

variable {query name : String} {s : Session} {u : ClassUnit} {limit : Nat}

/-- The query is a part of the name, and its capital sigmas have the same lower-case forms there as
in the query alone. -/
def OccursAlike (query name : String) : Prop :=
  ∃ before after, name.toList = before ++ (query.toList ++ after) ∧
    SameSigmas query.toList [] [] before.reverse after

/-- Every class with the query in its full or simple name is found. -/
def FindsClasses (query : String) : Prop :=
  ∀ s : Session, ∀ u ∈ s.corpus.classes,
    Text.contains u.fullName query = true ∨ Text.contains u.simpleName query = true →
      u ∈ s.searchClasses query

/-- Every method name with the query in it is suggested, if there is room for all names. -/
def FindsMethodNames (query : String) : Prop :=
  ∀ (c : Corpus) (limit : Nat), c.methodNames.toFinset.card ≤ limit →
    ∀ name ∈ c.methodNames, Text.contains name query = true → name ∈ c.similarMethods query limit

/-- A class of which nothing but the name is known. -/
def ClassUnit.ofName (name : String) : ClassUnit := ⟨name, name, "", [], [], ""⟩

theorem OccursAlike.similar (h : OccursAlike query name) :
    Text.containsIgnoringCase name query = true := by
  obtain ⟨before, after, split, same⟩ := h
  rw [Text.containsIgnoringCase_iff, split]
  exact lower_infix same

theorem occursAlike_of_contains (settled : ¬OpenSigma query.toList)
    (h : Text.contains name query = true) : OccursAlike query name := by
  obtain ⟨before, after, split⟩ := Text.contains_iff.mp h
  refine ⟨before, after, ?_, sameSigmas_of_not_openSigma settled⟩
  rw [← split, List.append_assoc]

theorem Session.mem_searchClasses (hu : u ∈ s.corpus.classes)
    (h : Text.containsIgnoringCase u.fullName query = true ∨
      Text.containsIgnoringCase u.simpleName query = true) : u ∈ s.searchClasses query := by
  refine List.mem_filter.mpr ⟨hu, ?_⟩
  rcases h with h | h <;> simp [ClassUnit.answers, h]

/-- A query of another length than the name, and with as many dots, can only match it regardless of
case. -/
theorem similar_of_answers (h : (ClassUnit.ofName name).answers query = true)
    (hne : name.toList.length ≠ query.toList.length)
    (hdot : name.toList.count '.' ≤ query.toList.count '.') :
    Text.containsIgnoringCase name query = true := by
  have other : name ≠ query := fun same => hne (by rw [same])
  have notEnd : Text.endsWith name ("." ++ query) = false := by
    rw [← Bool.not_eq_true, Text.endsWith_iff, String.toList_append]
    intro tail
    have dots := tail.sublist.count_le '.'
    rw [List.count_append] at dots
    have one : ".".toList.count '.' = 1 := by decide
    omega
  simpa [ClassUnit.answers, ClassUnit.ofName, other, notEnd] using h

/-- A query with a sigma whose form hinges on what stands around it is lost in some name. -/
theorem exists_name_lost (h : OpenSigma query.toList) : ∃ name : String,
    Text.contains name query = true ∧ Text.containsIgnoringCase name query = false ∧
      (ClassUnit.ofName name).answers query = false := by
  obtain ⟨t, part, lost, length, dots⟩ := exists_lower_lost h
  have named : (String.ofList t).toList = t := String.toList_ofList
  have unlike : Text.containsIgnoringCase (String.ofList t) query = false := by
    rwa [← Bool.not_eq_true, Text.containsIgnoringCase_iff, named]
  refine ⟨String.ofList t, ?_, unlike, ?_⟩
  · rwa [Text.contains_iff, named]
  · rw [← Bool.not_eq_true]
    intro found
    have similar := similar_of_answers found (by rw [named]; omega) (by rw [named]; omega)
    rw [unlike] at similar
    cases similar

theorem findsClasses_iff : FindsClasses query ↔ ¬OpenSigma query.toList := by
  constructor
  · intro finds hinges
    obtain ⟨name, part, _, lost⟩ := exists_name_lost hinges
    have found := finds ⟨Config.default, ⟨[.ofName name], []⟩, .missing, ⟨[]⟩⟩ _ List.mem_cons_self
      (.inl part)
    exact absurd (List.mem_filter.mp found).2 (by rw [lost]; decide)
  · intro settled s u hu part
    exact s.mem_searchClasses hu (part.imp (fun h => (occursAlike_of_contains settled h).similar)
      fun h => (occursAlike_of_contains settled h).similar)

theorem findsMethodNames_iff : FindsMethodNames query ↔ ¬OpenSigma query.toList := by
  constructor
  · intro finds hinges
    obtain ⟨name, part, lost, _⟩ := exists_name_lost hinges
    let c : Corpus := ⟨[⟨"", "", "", [name], [], ""⟩], []⟩
    have found := finds c _ le_rfl name (by simp [c, Corpus.methodNames, Corpus.methods]) part
    rw [(Corpus.mem_similarMethods_iff le_rfl).mp found |>.2] at lost
    cases lost
  · intro settled c limit room name hname part
    exact (Corpus.mem_similarMethods_iff room).mpr
      ⟨hname, (occursAlike_of_contains settled part).similar⟩

/-- Every literal occurrence of a query is found, in every application, exactly if the form of no
capital sigma of the query hinges on what stands around it. Of the other queries those occurrences
are found whose sigmas have the forms that they have in the query alone. -/
theorem literal_found_iff (query : String) :
    (FindsClasses query ↔ ¬OpenSigma query.toList) ∧
    (FindsMethodNames query ↔ ¬OpenSigma query.toList) ∧
    ∀ name, OccursAlike query name →
      (∀ s : Session, ∀ u ∈ s.corpus.classes, u.fullName = name ∨ u.simpleName = name →
        u ∈ s.searchClasses query) ∧
      ∀ (c : Corpus) (limit : Nat), c.methodNames.toFinset.card ≤ limit → name ∈ c.methodNames →
        name ∈ c.similarMethods query limit := by
  refine ⟨findsClasses_iff, findsMethodNames_iff, ?_⟩
  intro name alike
  constructor
  · intro s u hu named
    refine s.mem_searchClasses hu (named.imp ?_ ?_)
    · rintro rfl
      exact alike.similar
    · rintro rfl
      exact alike.similar
  · intro c limit room hname
    exact (Corpus.mem_similarMethods_iff room).mpr ⟨hname, alike.similar⟩

/-- A class and a method whose names go on behind the word for a street. -/
def street (name : String) : ClassUnit := ⟨"gr." ++ name, name, "gr", [name], [], ""⟩

def streetSession (name : String) : Session :=
  ⟨{ Config.default with confirmers := [] }, ⟨[street name], []⟩, .missing, ⟨[]⟩⟩

theorem street_alike : OccursAlike "ΟΔΟΣ" "ΟΔΟΣ_Α" := by
  refine ⟨[], "_Α".toList, by decide, ?_⟩
  intro u v split
  -- the only sigma is the last character
  have last : u = "ΟΔΟ".toList ∧ v = [] := by
    have text : ['Ο', 'Δ', 'Ο', 'Σ'] = u ++ 'Σ' :: v := split
    rcases u with _ | ⟨a, _ | ⟨b, _ | ⟨c, _ | ⟨d, u⟩⟩⟩⟩ <;> simp_all [eq_comm]
  obtain ⟨rfl, rfl⟩ := last
  decide +kernel

theorem street_found :
    OccursAlike "ΟΔΟΣ" "ΟΔΟΣ_Α" ∧
      street "ΟΔΟΣ_Α" ∈ (streetSession "ΟΔΟΣ_Α").searchClasses "ΟΔΟΣ" ∧
      "ΟΔΟΣ_Α" ∈ (streetSession "ΟΔΟΣ_Α").corpus.similarMethods "ΟΔΟΣ" 1 ∧
      FindsClasses "Main" ∧ FindsMethodNames "Main" := by
  have settled : ¬OpenSigma "Main".toList := by
    rintro ⟨u, v, split, _⟩
    have sigma : 'Σ' ∈ "Main".toList := by simp [split]
    exact absurd sigma (by decide)
  obtain ⟨classes, names⟩ := (literal_found_iff "ΟΔΟΣ").2.2 _ street_alike
  obtain ⟨main, mainNames, _⟩ := literal_found_iff "Main"
  exact ⟨street_alike, classes _ _ List.mem_cons_self (.inr rfl),
    names _ 1 (by decide) List.mem_cons_self, main.mpr settled, mainNames.mpr settled⟩

/-- A capital sigma that ends the query, but not the word in the name, keeps both from being
found. -/
theorem street_lost : (¬∀ query, FindsClasses query) ∧ ¬∀ query, FindsMethodNames query := by
  constructor
  · intro h
    have found := h "ΟΔΟΣ" (streetSession "ΟΔΟΣΑ") _ List.mem_cons_self (.inr (by decide))
    have lost : (street "ΟΔΟΣΑ").answers "ΟΔΟΣ" = false := by decide +kernel
    exact absurd (List.mem_filter.mp found).2 (by rw [lost]; decide)
  · intro h
    have found := h "ΟΔΟΣ" (streetSession "ΟΔΟΣΑ").corpus 1 (by decide) "ΟΔΟΣΑ" List.mem_cons_self
      (by decide)
    exact absurd found (by decide +kernel)

end AppSurface
