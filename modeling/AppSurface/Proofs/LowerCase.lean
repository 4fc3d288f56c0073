import AppSurface.Unicode.Case
import Mathlib.Data.List.TakeWhile

namespace AppSurface.Unicode

variable {s t u v before before' after after' : List Char} {c : Char}

theorem casedNext_of_ignorable (h : ∀ c ∈ s, isCaseIgnorable c = true) : casedNext s = false := by
  rw [casedNext, List.dropWhile_eq_nil_iff.mpr h]

theorem casedNext_append_of_ignorable (h : ∀ c ∈ s, isCaseIgnorable c = true) :
    casedNext (s ++ t) = casedNext t := by
  rw [casedNext, casedNext, List.dropWhile_append_of_pos h]

/-- A character that is not case-ignorable settles which one is met first. -/
theorem casedNext_append (h : ∃ c ∈ s, isCaseIgnorable c = false) :
    casedNext (s ++ t) = casedNext s := by
  have some : s.dropWhile isCaseIgnorable ≠ [] := by
    obtain ⟨c, hc, settled⟩ := h
    intro none
    rw [List.dropWhile_eq_nil_iff.mp none c hc] at settled
    cases settled
  obtain ⟨c, rest, first⟩ := List.exists_cons_of_ne_nil some
  rw [casedNext, casedNext, List.dropWhile_append, first]
  rfl

theorem sigma_not_ignorable : isCaseIgnorable 'Σ' = false := by decide +kernel

/-- A capital sigma between two texts, the first of them nearest first, ends a word. -/
def endsWord (before after : List Char) : Bool := casedNext before && !casedNext after

/-- The lower-cased form of a character between two texts, the first of them nearest first. -/
def lowerForm (before : List Char) (c : Char) (after : List Char) : List Char :=
  if c = 'Σ' then [if endsWord before after then 'ς' else 'σ']
  else if c = 'İ' then ['i', '\u0307']
  else [mapCase lowerRuns c]

/-- The lower-cased form of a text between two others, the first of them nearest first. -/
def lowerBetween (before : List Char) : List Char → List Char → List Char
  | [], _ => []
  | c :: s, after => lowerForm before c (s ++ after) ++ lowerBetween (c :: before) s after

theorem lowerAfter_cons : lowerAfter before (c :: s) =
    lowerForm before c s ++ lowerAfter (c :: before) s := by
  unfold lowerForm
  split
  next h =>
    subst h
    rfl
  next sigma =>
    split
    next h =>
      subst h
      rfl
    next dotted =>
      rw [lowerAfter]
      · rfl
      · exact sigma
      · exact dotted

theorem lowerAfter_append : lowerAfter before (s ++ t) =
    lowerBetween before s t ++ lowerAfter (s.reverse ++ before) t := by
  induction s generalizing before with
  | nil => rfl
  | cons c s ih =>
    rw [List.cons_append, lowerAfter_cons, ih, lowerBetween, List.append_assoc, List.reverse_cons,
      List.append_assoc, List.singleton_append]

/-- The capital sigmas of a text take the same forms in two surroundings. -/
def SameSigmas (s before after before' after' : List Char) : Prop :=
  ∀ u v, s = u ++ 'Σ' :: v →
    endsWord (u.reverse ++ before) (v ++ after) = endsWord (u.reverse ++ before') (v ++ after')

theorem lowerForm_congr (h : c = 'Σ' → endsWord before after = endsWord before' after') :
    lowerForm before c after = lowerForm before' c after' := by
  unfold lowerForm
  split
  next sigma => rw [h sigma]
  next => rfl

theorem lowerBetween_congr (h : SameSigmas s before after before' after') :
    lowerBetween before s after = lowerBetween before' s after' := by
  induction s generalizing before before' with
  | nil => rfl
  | cons c s ih =>
    have first : lowerForm before c (s ++ after) = lowerForm before' c (s ++ after') := by
      refine lowerForm_congr ?_
      rintro rfl
      exact h [] s rfl
    have rest : SameSigmas s (c :: before) after (c :: before') after' := by
      rintro u v rfl
      simpa using h (c :: u) v rfl
    rw [lowerBetween, lowerBetween, first, ih rest]

theorem lowerAfter_eq : lowerAfter before s = lowerBetween before s [] := by
  have whole : lowerAfter before (s ++ []) = lowerBetween before s [] ++ [] := lowerAfter_append
  rwa [List.append_nil, List.append_nil] at whole

/-- Where no sigma stands, the surroundings do not matter. -/
theorem sameSigmas_of_ignorable (h : ∀ c ∈ s, isCaseIgnorable c = true) :
    SameSigmas s before after before' after' := by
  rintro u v rfl
  have ignorable := h 'Σ' (by simp)
  rw [sigma_not_ignorable] at ignorable
  cases ignorable

/-- A part of a text, with its sigmas in the forms they have in the part alone, is lower-cased there
as it is alone. -/
theorem lower_infix (h : SameSigmas s [] [] before.reverse after) :
    lower s <:+: lower (before ++ (s ++ after)) := by
  have part : lower s = lowerBetween before.reverse s after :=
    lowerAfter_eq.trans (lowerBetween_congr h)
  refine ⟨lowerBetween [] before (s ++ after), lowerAfter (s.reverse ++ before.reverse) after, ?_⟩
  rw [part, lower, lowerAfter_append, lowerAfter_append, List.append_nil, List.append_assoc]

/-- The form of some capital sigma of the text hinges on what stands around the text: on one side of
it are case-ignorable characters only, and the other side alone does not settle the form. -/
def OpenSigma (s : List Char) : Prop :=
  ∃ u v, s = u ++ 'Σ' :: v ∧
    ((∀ c ∈ u, isCaseIgnorable c = true) ∧ casedNext v = false ∨
      (∀ c ∈ v, isCaseIgnorable c = true) ∧ casedNext u.reverse = true)

/-- Without such a sigma the surroundings do not matter. -/
theorem sameSigmas_of_not_openSigma (h : ¬OpenSigma s) : SameSigmas s [] [] before after := by
  rintro u v rfl
  rw [List.append_nil, List.append_nil, endsWord, endsWord]
  by_cases hu : ∀ c ∈ u, isCaseIgnorable c = true
  · -- a cased letter follows, and the sigma ends no word
    have cased : casedNext v = true := by
      by_contra none
      exact h ⟨u, v, rfl, .inl ⟨hu, Bool.not_eq_true _ ▸ none⟩⟩
    have settled : ∃ c ∈ v, isCaseIgnorable c = false := by
      by_contra none
      rw [casedNext_of_ignorable (by simpa using none)] at cased
      cases cased
    rw [casedNext_append settled, cased, Bool.not_true, Bool.and_false, Bool.and_false]
  · have settled : ∃ c ∈ u.reverse, isCaseIgnorable c = false := by simpa using hu
    rw [casedNext_append settled]
    by_cases hv : ∀ c ∈ v, isCaseIgnorable c = true
    · have uncased : casedNext u.reverse = false := by
        by_contra cased
        exact h ⟨u, v, rfl, .inr ⟨hv, Bool.not_eq_false _ ▸ cased⟩⟩
      rw [uncased, Bool.false_and, Bool.false_and]
    · have settled : ∃ c ∈ v, isCaseIgnorable c = false := by simpa using hv
      rw [casedNext_append settled]

/-- Around a sigma a text splits into parts that are lower-cased apart. -/
theorem lowerAfter_split : lowerAfter before (u ++ 'Σ' :: v) = lowerBetween before u ('Σ' :: v) ++
    (if endsWord (u.reverse ++ before) v then 'ς' else 'σ') ::
      lowerAfter ('Σ' :: (u.reverse ++ before)) v := by
  rw [lowerAfter_append, lowerAfter_cons, lowerForm, if_pos rfl, List.singleton_append]

theorem casedNext_append_sigma : casedNext (s ++ 'Σ' :: t) = casedNext (s ++ ['Σ']) := by
  have split : s ++ 'Σ' :: t = (s ++ ['Σ']) ++ t := by simp
  rw [split, casedNext_append ⟨'Σ', by simp, sigma_not_ignorable⟩]

/-- Behind a sigma it does not matter what stands before that one, and in front of it what
follows. -/
theorem sameSigmas_behind : SameSigmas s ('Σ' :: before) after ('Σ' :: before') after := by
  intro u v _
  rw [endsWord, endsWord, casedNext_append_sigma, casedNext_append_sigma (t := before')]

theorem sameSigmas_inFront : SameSigmas s before ('Σ' :: after) before ('Σ' :: after') := by
  intro u v _
  rw [endsWord, endsWord, casedNext_append_sigma, casedNext_append_sigma (t := after')]

theorem not_infix_of_count_lt (h : t.count c < s.count c) : ¬s <:+: t :=
  fun part => absurd (part.sublist.count_le c) (Nat.not_le.mpr h)

theorem casedNext_letter : casedNext ['a'] = true := by decide +kernel

theorem lowerForm_letter : lowerForm before 'a' after = ['a'] := by
  rw [lowerForm, if_neg (by decide), if_neg (by decide)]
  decide +kernel

/-- Behind a letter a sigma at the start can come to end a word. -/
theorem lower_lost_behind (hu : ∀ c ∈ u, isCaseIgnorable c = true) (hv : casedNext v = false) :
    ¬lower (u ++ 'Σ' :: v) <:+: lower ('a' :: (u ++ 'Σ' :: v)) := by
  have ignorable : ∀ c ∈ u.reverse, isCaseIgnorable c = true := by simpa using hu
  have alone : endsWord u.reverse v = false := by
    rw [endsWord, casedNext_of_ignorable ignorable, Bool.false_and]
  have behind : endsWord (u.reverse ++ ['a']) v = true := by
    rw [endsWord, casedNext_append_of_ignorable ignorable, casedNext_letter, hv]
    rfl
  have start : lowerBetween ['a'] u ('Σ' :: v) = lowerBetween [] u ('Σ' :: v) :=
    lowerBetween_congr (sameSigmas_of_ignorable hu)
  have rest : lowerAfter ('Σ' :: (u.reverse ++ ['a'])) v = lowerAfter ('Σ' :: u.reverse) v := by
    rw [lowerAfter_eq, lowerAfter_eq, lowerBetween_congr sameSigmas_behind]
  rw [lower, lower, lowerAfter_cons, lowerForm_letter, lowerAfter_split, lowerAfter_split,
    List.append_nil, alone, behind, start, rest]
  apply not_infix_of_count_lt (c := 'σ')
  simp

/-- In front of a letter a sigma at the end comes to end no word. -/
theorem lower_lost_inFront (hv : ∀ c ∈ v, isCaseIgnorable c = true)
    (hu : casedNext u.reverse = true) :
    ¬lower (u ++ 'Σ' :: v) <:+: lower (u ++ 'Σ' :: (v ++ ['a'])) := by
  have alone : endsWord u.reverse v = true := by
    rw [endsWord, casedNext_of_ignorable hv, hu]
    rfl
  have inFront : endsWord u.reverse (v ++ ['a']) = false := by
    rw [endsWord, casedNext_append_of_ignorable hv, casedNext_letter, Bool.not_true, Bool.and_false]
  have start : lowerBetween [] u ('Σ' :: (v ++ ['a'])) = lowerBetween [] u ('Σ' :: v) :=
    lowerBetween_congr sameSigmas_inFront
  have rest : lowerAfter ('Σ' :: u.reverse) (v ++ ['a']) =
      lowerAfter ('Σ' :: u.reverse) v ++ ['a'] := by
    rw [lowerAfter_append, lowerBetween_congr (sameSigmas_of_ignorable hv), ← lowerAfter_eq,
      lowerAfter_cons, lowerForm_letter]
    rfl
  rw [lower, lower, lowerAfter_split, lowerAfter_split, List.append_nil, alone, inFront, start,
    rest]
  apply not_infix_of_count_lt (c := 'ς')
  simp

/-- One letter more around the text can give such a sigma another form. -/
theorem exists_lower_lost (h : OpenSigma s) : ∃ t, s <:+: t ∧ ¬lower s <:+: lower t ∧
    t.length = s.length + 1 ∧ t.count '.' = s.count '.' := by
  obtain ⟨u, v, rfl, ⟨hu, hv⟩ | ⟨hv, hu⟩⟩ := h
  · refine ⟨'a' :: (u ++ 'Σ' :: v), (List.suffix_cons _ _).isInfix, lower_lost_behind hu hv, rfl,
      ?_⟩
    rw [List.count_cons_of_ne (by decide)]
  · refine ⟨u ++ 'Σ' :: (v ++ ['a']), ⟨[], ['a'], by simp⟩, lower_lost_inFront hv hu, ?_, ?_⟩
    · simp only [List.length_append, List.length_cons, List.length_nil]
      omega
    · simp

end AppSurface.Unicode
