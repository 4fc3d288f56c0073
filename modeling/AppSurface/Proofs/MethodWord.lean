import AppSurface.Proofs.MethodText

namespace AppSurface.Locator

variable {source name head rest text u : List Char} {s p : Nat} {body before : List Char}

/-- The name stands behind `u` in a text, with blanks and an opening parenthesis behind it. -/
def NamedBehind (name u text : List Char) : Prop :=
  ∃ b t, text = u ++ (name ++ (b ++ '(' :: t)) ∧ ∀ x ∈ b, Unicode.isBlank x = true

/-- The name so stands in a text with no character of a word in front of it. -/
def NamedAsWord (name text : List Char) : Prop :=
  ∃ u, NamedBehind name u text ∧ ∀ x ∈ u.getLast?, Unicode.isWord x = false

/-- A head that starts and ends at two positions contains the name as a word. -/
def WordHeadAt (source name : List Char) (s p : Nat) : Prop :=
  HeadAt source name s p ∧ NamedAsWord name (slice source s p)

theorem word_braceless (hw : ∀ x ∈ name, Unicode.isWord x = true) : '{' ∉ name :=
  fun h => absurd (hw _ h) (by decide)

theorem ne_nil_of_body? (h : body? source name = some body) : name ≠ [] := by
  obtain ⟨_, _, located, _⟩ := body?_eq_some_iff.mp h
  exact located.1

theorem IsHead.exists_named (h : IsHead name head) :
    ∃ m ∈ modifiers, ∃ v, v ≠ [] ∧ NamedBehind name (m.toList ++ v) head := by
  obtain ⟨m, hm, v, b, t, hh, hv, blank⟩ := h.parts
  exact ⟨m, hm, v, hv, b, t, by simpa using hh, blank⟩

/-- The part of the text that is found before its first brace is the first head of the source. -/
theorem exists_firstHead_of_body? (hb : '{' ∉ name) (h : body? source name = some body) :
    ∃ before rest, FirstHead source name before (headPart body) rest := by
  obtain ⟨before, head, t, after, first, -, rfl⟩ :=
    (body?_eq_some_iff_firstHead (ne_nil_of_body? h) hb).mp h
  rw [headPart_append first.isHead.braceless]
  exact ⟨before, t ++ after, first⟩

namespace FirstHead

variable (first : FirstHead source name before head rest)
include first

theorem headAt : HeadAt source name before.length (before.length + head.length) :=
  .of_split first.split first.isHead

theorem isLeast : IsLeast {s | ∃ p, HeadAt source name s p} before.length := by
  refine ⟨⟨_, first.headAt⟩, ?_⟩
  rintro s ⟨p, head', rest', hh, split, rfl⟩
  have whole : source = source.take s ++ (head' ++ '{' :: rest') := by
    rw [← split, List.take_append_drop]
  exact (first.first _ _ _ whole hh).trans (List.length_take_le _ _)

/-- Up to the opening brace behind it, a head that starts where the first one does is that head. -/
theorem slice_eq (h : HeadAt source name before.length p) : slice source before.length p = head := by
  obtain ⟨head', rest', hh, split, rfl⟩ := h
  rw [first.split, List.drop_left] at split
  have heads := congrArg headPart split
  rw [headPart_append first.isHead.braceless, headPart_append hh.braceless] at heads
  rw [← heads, slice_add, first.split, List.drop_left, List.take_left]

end FirstHead

/-- The head of the text found for a method starts with a modifier and contains the name, with at
least one character between them. The name is a word of its own there exactly if the first head of
the source is also the first in which the name is one. -/
theorem body?_names_word_iff (hw : ∀ x ∈ name, Unicode.isWord x = true)
    (h : body? source name = some body) :
    (∃ m ∈ modifiers, ∃ v, v ≠ [] ∧ NamedBehind name (m.toList ++ v) (headPart body)) ∧
    (NamedAsWord name (headPart body) ↔
      ∃ s, IsLeast {s | ∃ p, HeadAt source name s p} s ∧
        IsLeast {s | ∃ p, WordHeadAt source name s p} s) := by
  obtain ⟨before, rest, first⟩ := exists_firstHead_of_body? (word_braceless hw) h
  refine ⟨first.isHead.exists_named, ?_⟩
  constructor
  · intro word
    refine ⟨before.length, first.isLeast, ⟨_, first.headAt, ?_⟩, ?_⟩
    · rwa [first.slice_eq first.headAt]
    · rintro s ⟨p, hh, _⟩
      exact first.isLeast.2 ⟨p, hh⟩
  · rintro ⟨s, least, ⟨p, hh, word⟩, _⟩
    obtain rfl := least.unique first.isLeast
    rwa [first.slice_eq hh] at word

/-- Two methods, of which the name of the first ends with that of the second. -/
def reloading : List Char := "public void reload() { } public void load() { }".toList

theorem reloading_load :
    body? reloading "load".toList = some "public void reload() { }".toList := by decide +kernel

theorem load_word : ∀ x ∈ "load".toList, Unicode.isWord x = true := by
  have all : "load".toList.all Unicode.isWord = true := by decide +kernel
  exact List.all_eq_true.mp all

theorem reload_names_load :
    let body := "public void reload() { }".toList
    (∀ x ∈ "load".toList, Unicode.isWord x = true) ∧
      body? reloading "load".toList = some body ∧
      (∃ m ∈ modifiers, ∃ v, v ≠ [] ∧
        NamedBehind "load".toList (m.toList ++ v) (headPart body)) ∧
      (NamedAsWord "load".toList (headPart body) ↔
        ∃ s, IsLeast {s | ∃ p, HeadAt reloading "load".toList s p} s ∧
          IsLeast {s | ∃ p, WordHeadAt reloading "load".toList s p} s) :=
  ⟨load_word, reloading_load, body?_names_word_iff load_word reloading_load⟩

/-- The text found can be that of another method, whose name ends with the name asked for. -/
theorem body?_not_always_names_word : ¬∀ source name body : List Char,
    name ≠ [] → (∀ x ∈ name, Unicode.isWord x = true) → body? source name = some body →
      NamedAsWord name (headPart body) := by
  intro h
  obtain ⟨u, ⟨b, t, split, _⟩, bare⟩ := h _ _ _ (by decide) load_word reloading_load
  have head : headPart "public void reload() { }".toList = "public void reload() ".toList := by
    decide +kernel
  rw [head] at split
  -- the name stands at one place only, and there behind the letter `e`
  have place : ∀ k < 22, "load".toList <+: ("public void reload() ".toList).drop k → k = 14 := by
    decide +kernel
  have len := congrArg List.length split
  have within : u.length < 22 := by simp at len; omega
  have at14 : u.length = 14 := by
    refine place _ within ?_
    rw [split, List.drop_left]
    exact List.prefix_append _ _
  have hu : u = "public void re".toList := by
    have := congrArg (List.take u.length) split
    rw [List.take_left, at14] at this
    exact this.symm
  have last := bare 'e' (by rw [hu]; decide)
  exact absurd last (by decide +kernel)

end AppSurface.Locator
