import AppSurface.Proofs.MethodHead
import Mathlib.Order.Bounds.Basic

namespace AppSurface.Locator

variable {source name head rest s t body : List Char} {i j k p e : Nat}

/-- The part of a text from one position to another. -/
def slice (s : List Char) (i j : Nat) : List Char := (s.take j).drop i

theorem slice_add (s : List Char) (i k : Nat) : slice s i (i + k) = (s.drop i).take k :=
  List.take_drop.symm

/-- A head of the method starts at one position, and the next opening brace stands at the other. -/
def HeadAt (source name : List Char) (s p : Nat) : Prop :=
  ∃ head rest, IsHead name head ∧ source.drop s = head ++ '{' :: rest ∧ p = s + head.length

theorem HeadAt.of_split {before : List Char} (split : source = before ++ (head ++ '{' :: rest))
    (hh : IsHead name head) : HeadAt source name before.length (before.length + head.length) :=
  ⟨head, rest, hh, by rw [split, List.drop_left], rfl⟩

theorem FirstHead.of_headAt {s : Nat} (hh : IsHead name head)
    (split : source.drop s = head ++ '{' :: rest)
    (least : ∀ r q, HeadAt source name r q → s ≤ r) :
    FirstHead source name (source.take s) head rest where
  split := by rw [← split, List.take_append_drop]
  isHead := hh
  first := fun _ _ _ split' hh' =>
    (List.length_take_le _ _).trans (least _ _ (.of_split split' hh'))

/-- The block that opens at `p` is closed before `e`. -/
def ClosedAt (source : List Char) (p e : Nat) : Prop :=
  p < e ∧ e ≤ source.length ∧ (slice source p e).count '}' = (slice source p e).count '{'

instance : Decidable (ClosedAt source p e) := inferInstanceAs (Decidable (_ ∧ _ ∧ _))

theorem count_slice (open_ : source.drop p = '{' :: rest) (k : Nat) :
    (slice source p (p + (k + 1))).count '}' = (rest.take k).count '}' ∧
      (slice source p (p + (k + 1))).count '{' = (rest.take k).count '{' + 1 := by
  rw [slice_add, open_, List.take_succ_cons]
  simp

/-- Behind the text that closes the block, and at no earlier position, as many braces are closed as
opened. -/
theorem isLeast_closedAt (split : source.drop p = '{' :: (t ++ rest)) (closes : Closes 0 t) :
    IsLeast {e | ClosedAt source p e} (p + (t.length + 1)) := by
  constructor
  · have length := congrArg List.length split
    have closed := closes.total
    obtain ⟨hc, ho⟩ := count_slice split t.length
    rw [List.take_left] at hc ho
    simp only [List.length_drop, List.length_cons, List.length_append] at length
    refine ⟨by omega, by omega, ?_⟩
    omega
  · rintro e ⟨hp, _, equal⟩
    obtain ⟨k, rfl⟩ : ∃ k, e = p + (k + 1) := ⟨e - p - 1, by omega⟩
    by_contra hlt
    have hk : k < t.length := by omega
    obtain ⟨hc, ho⟩ := count_slice split k
    have part : (t ++ rest).take k = t.take k := List.take_append_of_le_length hk.le
    have proper : t.take k ≠ t := fun he => by
      have := congrArg List.length he
      rw [List.length_take_of_le hk.le] at this
      omega
    have := closes.not_before _ (List.take_prefix k t) proper
    rw [part] at hc ho
    omega

/-- A block that is closed at no point has no position where the braces are even. -/
theorem not_closedAt (split : source.drop p = '{' :: rest)
    (never : ∀ u, u <+: rest → u.count '}' ≤ u.count '{') : ¬ClosedAt source p e := by
  rintro ⟨hp, _, equal⟩
  obtain ⟨k, rfl⟩ : ∃ k, e = p + (k + 1) := ⟨e - p - 1, by omega⟩
  obtain ⟨hc, ho⟩ := count_slice split k
  have := never _ (List.take_prefix k rest)
  omega

theorem slice_of_split {s : Nat} (split : source.drop s = head ++ '{' :: (t ++ rest)) :
    slice source s (s + head.length + (t.length + 1)) = head ++ '{' :: t := by
  have text : head ++ '{' :: (t ++ rest) = (head ++ '{' :: t) ++ rest := by simp
  have length : head.length + (t.length + 1) = (head ++ '{' :: t).length := by simp
  rw [Nat.add_assoc, slice_add, split, text, length, List.take_left]

/-- A method is not found where no head is. Otherwise its text reaches from the first head up to
where the block behind that head is closed, and it is not found if that block is not closed. -/
theorem body?_from_first_head (hn : name ≠ []) (hb : '{' ∉ name) :
    ((∀ s p, ¬HeadAt source name s p) → body? source name = none) ∧
    ∀ s p, HeadAt source name s p → (∀ r q, HeadAt source name r q → s ≤ r) →
      (∀ e, IsLeast {e | ClosedAt source p e} e → body? source name = some (slice source s e)) ∧
      ((∀ e, ¬ClosedAt source p e) → body? source name = none) := by
  constructor
  · intro none
    rcases exists_first_or_none hb source with ⟨before, head, rest, first⟩ | ⟨found, _⟩
    · exact absurd (HeadAt.of_split first.split first.isHead) (none _ _)
    · exact found
  · rintro s p ⟨head, rest, hh, split, rfl⟩ least
    have opens : source.drop (s + head.length) = '{' :: rest := by
      rw [← List.drop_drop, split, List.drop_left]
    rcases body?_cases hn hb (.of_headAt hh split least) with
      ⟨t, after, rfl, closes, found⟩ | ⟨found, never⟩
    · have closed := isLeast_closedAt opens closes
      constructor
      · intro e he
        rw [he.unique closed, slice_of_split split, found]
      · intro never
        exact absurd closed.1 (never _)
    · exact ⟨fun e he => absurd he.1 (not_closedAt opens never), fun _ => found⟩

/-- Two declarations of `run`. The first has two modifiers, and a block inside its block. -/
def overloads : List Char := "final static run (){if(x){a();}}final run(){}".toList

theorem overloads_run :
    body? overloads "run".toList = some "final static run (){if(x){a();}}".toList := by
  have ne : "run".toList ≠ [] := by decide
  have braceless : '{' ∉ "run".toList := by decide
  have head : HeadAt overloads "run".toList 0 19 := by
    refine ⟨"final static run ()".toList, "if(x){a();}\x7dfinal run(){}".toList, ⟨by decide, ?_⟩,
      by decide +kernel, by decide⟩
    exact ⟨"final", by decide, " static ".toList, [' '], [')'], by decide +kernel, by decide,
      List.forall_mem_singleton.mpr rfl⟩
  have early : ∀ e < 32, ¬ClosedAt overloads 19 e := by decide +kernel
  have closed : IsLeast {e | ClosedAt overloads 19 e} 32 := by
    refine ⟨by decide +kernel, ?_⟩
    intro e he
    exact Nat.le_of_not_lt fun hlt => early e hlt he
  have text : slice overloads 0 32 = "final static run (){if(x){a();}}".toList := by decide +kernel
  rw [← text]
  exact ((body?_from_first_head ne braceless).2 0 19 head fun _ _ _ => Nat.zero_le _).1 32 closed

/-- The block of a text that is found is balanced, and the whole text is balanced exactly if its
head has no closing brace. -/
theorem body?_balanced_iff (hb : '{' ∉ name) (h : body? source name = some body) :
    Balanced (blockPart body) ∧ (Balanced body ↔ '}' ∉ headPart body) := by
  obtain ⟨head, block, located, rfl⟩ := body?_eq_some_iff.mp h
  obtain ⟨t, rfl, closes⟩ := located.exists_closes
  rw [(located.parts hb).1, (located.parts hb).2]
  exact ⟨closes.balanced, balanced_append_iff (located.braceless hb) closes.balanced⟩

/-- A method declared behind a nested class without methods. -/
def afterNested : List Char := "class A { class B { private int x; } public void foo() { } }".toList

theorem afterNested_foo : body? afterNested "foo".toList =
    some "private int x; \x7d public void foo() { }".toList := by decide +kernel

theorem afterNested_balanced_iff :
    let body := "private int x; \x7d public void foo() { }".toList
    '{' ∉ "foo".toList ∧ body? afterNested "foo".toList = some body ∧
      Balanced (blockPart body) ∧ (Balanced body ↔ '}' ∉ headPart body) :=
  ⟨by decide, afterNested_foo, body?_balanced_iff (by decide) afterNested_foo⟩

/-- The text of a method need not be balanced: its head can begin in a block that was closed before
the method. -/
theorem body?_not_always_balanced : ¬∀ source name body : List Char,
    Balanced source → '{' ∉ name → '}' ∉ name → body? source name = some body → Balanced body := by
  intro h
  exact absurd (h _ _ _ (by decide) (by decide) (by decide) afterNested_foo) (by decide)

end AppSurface.Locator
