import AppSurface.Session
import Mathlib.Data.String.Basic

namespace AppSurface

section InsertSorted

variable {α : Type} {key name : String} {x : α} {es : List (String × α)}

theorem mem_insertSorted {e : String × α} (h : e ∈ insertSorted key x es) :
    e = (key, x) ∨ e ∈ es := by
  induction es with
  | nil => exact .inl (List.mem_singleton.mp h)
  | cons e' es ih =>
    unfold insertSorted at h
    split at h
    next => exact (List.mem_cons.mp h).imp_right (List.mem_cons_of_mem _)
    next =>
      split at h
      next => exact List.mem_cons.mp h
      next =>
        rcases List.mem_cons.mp h with rfl | h
        · exact .inr List.mem_cons_self
        · exact (ih h).imp_right (List.mem_cons_of_mem _)

theorem pairwise_insertSorted (h : es.Pairwise fun a b => a.1 < b.1) :
    (insertSorted key x es).Pairwise fun a b => a.1 < b.1 := by
  induction es with
  | nil => exact List.pairwise_singleton _ _
  | cons e es ih =>
    obtain ⟨first, rest⟩ := List.pairwise_cons.mp h
    unfold insertSorted
    split
    next same =>
      rw [beq_iff_eq] at same
      exact .cons (same ▸ first) rest
    next other =>
      split
      next less =>
        rw [decide_eq_true_eq] at less
        refine .cons (fun b hb => ?_) h
        rcases List.mem_cons.mp hb with rfl | hb
        · exact less
        · exact less.trans (first b hb)
      next notLess =>
        have greater : e.1 < key := by
          rw [beq_iff_eq] at other
          rw [decide_eq_true_eq] at notLess
          exact lt_of_le_of_ne (not_lt.mp notLess) (Ne.symm other)
        refine .cons (fun b hb => ?_) (ih rest)
        rcases mem_insertSorted hb with rfl | hb
        · exact greater
        · exact first b hb

/-- What was listed under the key before is given up. -/
theorem lookup_insertSorted_self : (insertSorted key x es).lookup key = some x := by
  induction es with
  | nil => exact List.lookup_cons_self
  | cons e es ih =>
    unfold insertSorted
    split
    next => exact List.lookup_cons_self
    next other =>
      split
      next => exact List.lookup_cons_self
      next =>
        rw [Bool.not_eq_true] at other
        rw [List.lookup_cons, other, ih]

theorem lookup_insertSorted_of_ne (h : name ≠ key) :
    (insertSorted key x es).lookup name = es.lookup name := by
  have other : (name == key) = false := beq_false_of_ne h
  induction es with
  | nil => rw [insertSorted, List.lookup_cons, other]
  | cons e es ih =>
    unfold insertSorted
    split
    next same => rw [List.lookup_cons, List.lookup_cons, other, ← eq_of_beq same, other]
    next =>
      split
      next => rw [List.lookup_cons, other]
      next => rw [List.lookup_cons, List.lookup_cons, ih]

end InsertSorted

/-- The signatures of the methods of a class whose names contain a text, one a declaration. -/
def ClassUnit.hits (u : ClassUnit) (query : String) : List String :=
  (u.methods.filter fun m => Text.contains m query).map fun m =>
    (⟨u.fullName, m⟩ : MethodRef).signature

/-- The classes of a name that have such methods. -/
def Corpus.hitClasses (c : Corpus) (query name : String) : List ClassUnit :=
  c.classes.filter fun u => u.fullName == name && !(u.hits query).isEmpty

/-- All such signatures of the classes of a name, in corpus order. -/
def Corpus.hits (c : Corpus) (query name : String) : List String :=
  (c.classes.filter fun u => u.fullName == name).flatMap (·.hits query)

/-- Classes without such methods contribute nothing. -/
theorem Corpus.hits_eq (c : Corpus) (query name : String) :
    c.hits query name = (c.hitClasses query name).flatMap (·.hits query) := by
  unfold hits hitClasses
  induction c.classes with
  | nil => rfl
  | cons u us ih =>
    by_cases same : (u.fullName == name) = true
    · by_cases none : (u.hits query).isEmpty = true
      · have nil : u.hits query = [] := List.isEmpty_iff.mp none
        simpa [List.filter_cons, same, nil] using ih
      · simp [same, none, ih]
    · simp [same, ih]

namespace Session

variable {s : Session} {query name : String} {us : List ClassUnit}
  {found : List (String × List String)}

/-- What a search lists under a name. -/
def listedUnder (s : Session) (query name : String) : List String :=
  ((s.searchMethods query).lookup name).getD []

/-- A class with methods to list takes the place of what stands under its name. -/
def listHits (query : String) (found : List (String × List String)) (u : ClassUnit) :
    List (String × List String) :=
  if (u.hits query).isEmpty then found else insertSorted u.fullName (u.hits query) found

theorem searchMethods_eq (s : Session) (query : String) :
    s.searchMethods query = s.corpus.classes.foldl (listHits query) [] := by
  unfold searchMethods
  congr 1
  funext found u
  unfold listHits ClassUnit.hits
  split
  next none => simp [none]
  next ms some => rw [if_neg (by simpa using some)]

theorem pairwise_listHits (h : found.Pairwise fun a b => a.1 < b.1) :
    (us.foldl (listHits query) found).Pairwise fun a b => a.1 < b.1 := by
  induction us generalizing found with
  | nil => exact h
  | cons u us ih =>
    refine ih ?_
    unfold listHits
    split
    next => exact h
    next => exact pairwise_insertSorted h

theorem lookup_listHits : (us.foldl (listHits query) found).lookup name =
    ((us.filter fun u => u.fullName == name && !(u.hits query).isEmpty).getLast?.map
      (·.hits query)).or (found.lookup name) := by
  induction us generalizing found with
  | nil => rfl
  | cons u us ih =>
    rw [List.foldl_cons, ih, listHits, List.filter_cons]
    by_cases none : (u.hits query).isEmpty = true
    · simp [none]
    · by_cases same : u.fullName = name
      · subst same
        simp [none, lookup_insertSorted_self, List.getLast?_cons]
      · simp [none, same, lookup_insertSorted_of_ne (Ne.symm same)]

theorem pairwise_searchMethods (s : Session) (query : String) :
    (s.searchMethods query).Pairwise fun a b => a.1 < b.1 := by
  rw [searchMethods_eq]
  exact pairwise_listHits .nil

theorem lookup_searchMethods (s : Session) (query name : String) :
    (s.searchMethods query).lookup name =
      (s.corpus.hitClasses query name).getLast?.map (·.hits query) := by
  rw [searchMethods_eq, lookup_listHits]
  exact Option.or_none ..

/-- A list of non-empty parts is its last part only if there is no other. -/
theorem getLast?_eq_flatMap_iff (some : ∀ u ∈ us, u.hits query ≠ []) :
    (us.getLast?.map (·.hits query)).getD [] = us.flatMap (·.hits query) ↔ us.length ≤ 1 := by
  rcases us.eq_nil_or_concat' with rfl | ⟨earlier, u, rfl⟩
  · simp
  · cases earlier with
    | nil => simp
    | cons v vs =>
      have lost : v.hits query ≠ [] := some v (by simp)
      rw [List.getLast?_concat, List.flatMap_append, List.flatMap_singleton, Option.map_some,
        Option.getD_some, List.self_eq_append_left]
      simp [lost]

theorem listedUnder_eq_hits_iff : s.listedUnder query name = s.corpus.hits query name ↔
    (s.corpus.hitClasses query name).length ≤ 1 := by
  rw [listedUnder, lookup_searchMethods, Corpus.hits_eq]
  refine getLast?_eq_flatMap_iff fun u hu => ?_
  have listed := (List.mem_filter.mp hu).2
  simp only [Bool.and_eq_true, Bool.not_eq_true', List.isEmpty_eq_false_iff] at listed
  exact listed.2

/-- The names listed ascend, and under a name stand the methods of the last class of that name that
has any to list. So nothing is lost under a name exactly if at most one class of that name has
any. -/
theorem searchMethods_lists_last (s : Session) (query : String) :
    (s.searchMethods query).Pairwise (fun a b => a.1 < b.1) ∧
    ∀ name, (s.searchMethods query).lookup name =
        (s.corpus.hitClasses query name).getLast?.map (·.hits query) ∧
      (s.listedUnder query name = s.corpus.hits query name ↔
        (s.corpus.hitClasses query name).length ≤ 1) :=
  ⟨s.pairwise_searchMethods query, fun name =>
    ⟨s.lookup_searchMethods query name, listedUnder_eq_hits_iff⟩⟩

/-- Two classes of one name, as two dumps of one application can hold them. -/
def twiceMain : Corpus :=
  ⟨[⟨"app.Main", "Main", "app", ["onCreate"], [], ""⟩,
    ⟨"app.Main", "Main", "app", ["onPause"], [], ""⟩], []⟩

/-- Of the methods that match, those of a further class of the same name can be lost. -/
theorem searchMethods_not_lossless : ¬∀ (corpus : Corpus) (config : Config) (s : Session),
    Session.start corpus config = .ok s → ∀ query name,
      s.listedUnder query name = s.corpus.hits query name := by
  intro h
  have opens : Session.start twiceMain { Config.default with confirmers := [] } = .ok
      ⟨{ Config.default with confirmers := [] }, twiceMain, .ofCorpus twiceMain, ⟨[]⟩⟩ := rfl
  have lossless := h _ _ _ opens "on" "app.Main"
  exact absurd (listedUnder_eq_hits_iff.mp lossless) (by decide +kernel)

end Session

end AppSurface
