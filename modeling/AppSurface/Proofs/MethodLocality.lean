import AppSurface.Proofs.MethodWord

namespace AppSurface.Locator

variable {source name body before head rest s t u after : List Char}

/-- A text that starts with a brace behind `head` does so without what follows it, if it has a brace
at all. -/
theorem exists_rest_of_append (hb : '{' ∉ head) (hs : '{' ∈ s)
    (split : s ++ u = head ++ '{' :: rest) : ∃ r, s = head ++ '{' :: r := by
  rcases List.append_eq_append_iff.mp split with ⟨v, rfl, _⟩ | ⟨v, rfl, hv⟩
  · exact absurd (List.mem_append_left v hs) hb
  · cases v with
    | nil => exact absurd (by simpa using hs) hb
    | cons x v =>
      cases (List.cons.inj hv).1
      exact ⟨v, rfl⟩

namespace FirstHead

/-- A head is the first one of a text that starts with it. -/
theorem alone (first : FirstHead source name before head rest) (t : List Char) :
    FirstHead (head ++ '{' :: t) name [] head t where
  split := rfl
  isHead := first.isHead
  first := fun _ _ _ _ _ => Nat.zero_le _

/-- The first head stays the first one when text is added behind: a head that starts before it ends
at the same brace, or at an earlier one. -/
theorem append (first : FirstHead source name before head rest) (u : List Char) :
    FirstHead (source ++ u) name before head (rest ++ u) where
  split := by simp [first.split]
  isHead := first.isHead
  first := by
    intro before' head' rest' split' hh'
    by_contra hlt
    have start : before' <+: before := by
      have whole : before' <+: before ++ (head ++ '{' :: rest ++ u) := by
        rw [← List.append_assoc, ← first.split, split']
        exact List.prefix_append _ _
      exact List.prefix_of_prefix_length_le whole (List.prefix_append _ _) (by omega)
    obtain ⟨v, rfl⟩ := start
    have behind : (v ++ (head ++ '{' :: rest)) ++ u = head' ++ '{' :: rest' := by
      rw [first.split] at split'
      simpa only [List.append_assoc, List.append_cancel_left_eq] using split'
    obtain ⟨r, hr⟩ := exists_rest_of_append hh'.braceless (by simp) behind
    refine hlt (first.first before' head' r ?_ hh')
    rw [first.split, List.append_assoc, hr]

end FirstHead

/-- The text found for a method is found again in itself, and text behind the source changes nothing
about it. -/
theorem body?_local (hb : '{' ∉ name) (h : body? source name = some body) (u : List Char) :
    body? body name = some body ∧ body? (source ++ u) name = some body := by
  have hn := ne_nil_of_body? h
  obtain ⟨before, head, t, after, first, closes, rfl⟩ := (body?_eq_some_iff_firstHead hn hb).mp h
  constructor
  · have again : FirstHead (head ++ '{' :: t) name [] head (t ++ []) := by
      simpa using first.alone t
    exact (body?_eq_some_iff_firstHead hn hb).mpr ⟨[], head, t, [], again, closes, rfl⟩
  · have longer : FirstHead (source ++ u) name before head (t ++ (after ++ u)) := by
      simpa using first.append u
    exact (body?_eq_some_iff_firstHead hn hb).mpr ⟨before, head, t, _, longer, closes, rfl⟩

/-- A source that breaks off within a second declaration of `load`. -/
def brokenOff : List Char :=
  "class B \x7b public void load(int x) { if (x > 0) { go(); } } private void load(".toList

theorem brokenOff_load :
    let body := "public void load(int x) { if (x > 0) { go(); } }".toList
    let more := ") { } \x7d".toList
    '{' ∉ "load".toList ∧ body? brokenOff "load".toList = some body ∧
      body? body "load".toList = some body ∧
      body? (brokenOff ++ more) "load".toList = some body := by
  intro body more
  have braceless : '{' ∉ "load".toList := by decide
  have found : body? brokenOff "load".toList = some body := by decide +kernel
  exact ⟨braceless, found, body?_local braceless found more⟩

end AppSurface.Locator
