import AppSurface.Locator
import Mathlib.Data.List.Infix

namespace AppSurface.Locator

variable {n : Nat} {s t rest u : List Char}

/-- As many braces are closed as opened, and at no point more are closed than opened. -/
structure Balanced (s : List Char) : Prop where
  total : s.count '{' = s.count '}'
  never_below : ∀ u, u <+: s → u.count '}' ≤ u.count '{'

theorem balanced_iff_inits :
    Balanced s ↔ s.count '{' = s.count '}' ∧ ∀ u ∈ s.inits, u.count '}' ≤ u.count '{' := by
  simp only [List.mem_inits]
  exact ⟨fun h => ⟨h.total, h.never_below⟩, fun h => ⟨h.1, h.2⟩⟩

instance : DecidablePred Balanced := fun _ => decidable_of_iff' _ balanced_iff_inits

/-- The text `s` closes a block in which `n` blocks are open, and ends there. -/
structure Closes (n : Nat) (s : List Char) : Prop where
  total : s.count '}' = s.count '{' + n + 1
  not_before : ∀ u, u <+: s → u ≠ s → u.count '}' ≤ u.count '{' + n

/-- One character is read: it closes the block, or as many blocks are open behind it as it opens
and closes. -/
theorem afterBlock_cons (n : Nat) (x : Char) (s : List Char) : x = '}' ∧ n = 0 ∨
    ∃ m, afterBlock n (x :: s) = afterBlock m s ∧ [x].count '}' + m = [x].count '{' + n := by
  by_cases ho : x = '{'
  · subst ho
    exact .inr ⟨n + 1, rfl, by simp; omega⟩
  · by_cases hc : x = '}'
    · subst hc
      cases n with
      | zero => exact .inl ⟨rfl, rfl⟩
      | succ n => exact .inr ⟨n, rfl, by simp; omega⟩
    · refine .inr ⟨n, ?_, by simp [ho, hc]⟩
      rw [afterBlock]
      · exact fun h => ho h
      · exact fun h => hc h

theorem Closes.zero : Closes 0 ['}'] where
  total := rfl
  not_before := by
    intro u hu hne
    rcases List.prefix_cons_iff.mp hu with rfl | ⟨v, rfl, hv⟩
    · rfl
    · exact absurd (by rw [List.prefix_nil.mp hv]) hne

/-- A character in front of a text that closes a block: `m` is what it makes of `n` open blocks. -/
theorem Closes.cons {x : Char} {m : Nat} (h : Closes m s)
    (hx : [x].count '}' + m = [x].count '{' + n) : Closes n (x :: s) where
  total := by
    have := h.total
    rw [← List.singleton_append, List.count_append, List.count_append]
    omega
  not_before := by
    intro u hu hne
    rcases List.prefix_cons_iff.mp hu with rfl | ⟨v, rfl, hv⟩
    · exact Nat.zero_le _
    · have := h.not_before v hv fun he => hne (by rw [he])
      rw [← List.singleton_append, List.count_append, List.count_append]
      omega

theorem afterBlock_eq_some (h : afterBlock n s = some rest) :
    ∃ t, s = t ++ rest ∧ Closes n t := by
  induction s generalizing n with
  | nil => cases h
  | cons x s ih =>
    rcases afterBlock_cons n x s with ⟨rfl, rfl⟩ | ⟨m, step, hm⟩
    · cases h
      exact ⟨['}'], rfl, .zero⟩
    · obtain ⟨t, ht, closes⟩ := ih (step ▸ h)
      exact ⟨x :: t, by rw [ht, List.cons_append], closes.cons hm⟩

/-- A block that is not closed is closed at no point. -/
theorem afterBlock_eq_none (h : afterBlock n s = none) (hu : u <+: s) :
    u.count '}' ≤ u.count '{' + n := by
  induction s generalizing n u with
  | nil =>
    rw [List.prefix_nil.mp hu]
    exact Nat.zero_le _
  | cons x s ih =>
    rcases List.prefix_cons_iff.mp hu with rfl | ⟨v, rfl, hv⟩
    · exact Nat.zero_le _
    · rcases afterBlock_cons n x s with ⟨rfl, rfl⟩ | ⟨m, step, hm⟩
      · cases h
      · have := ih (step ▸ h) hv
        rw [← List.singleton_append, List.count_append, List.count_append]
        omega

/-- A block that is closed by one text is closed by no other one that starts alike. -/
theorem Closes.eq_of_append (h : Closes n s) (h' : Closes n t) (same : s ++ u = t ++ rest) :
    s = t := by
  by_contra hne
  have := h.total
  have := h'.total
  rcases List.prefix_or_prefix_of_prefix (⟨u, same⟩ : s <+: t ++ rest)
    (List.prefix_append t rest) with hs | ht
  · have := h'.not_before s hs hne
    omega
  · have := h.not_before t ht (Ne.symm hne)
    omega

theorem Closes.balanced (closes : Closes 0 t) : Balanced ('{' :: t) where
  total := by
    have := closes.total
    simp only [List.count_cons_self, List.count_cons_of_ne (show '{' ≠ '}' by decide)]
    omega
  never_below := by
    intro u hu
    rcases List.prefix_cons_iff.mp hu with rfl | ⟨v, rfl, hv⟩
    · exact Nat.zero_le _
    · simp only [List.count_cons_self, List.count_cons_of_ne (show '{' ≠ '}' by decide)]
      by_cases he : v = t
      · have := closes.total
        subst he
        omega
      · have := closes.not_before v hv he
        omega

/-- A text without opening braces in front of a balanced one keeps it balanced exactly if it has no
closing ones. -/
theorem balanced_append_iff (ho : '{' ∉ s) (balanced : Balanced t) :
    Balanced (s ++ t) ↔ '}' ∉ s := by
  constructor
  · intro h
    have := h.never_below s (List.prefix_append s t)
    rw [List.count_eq_zero.mpr ho] at this
    exact List.count_eq_zero.mp (Nat.le_zero.mp this)
  · intro hc
    refine ⟨?_, ?_⟩
    · rw [List.count_append, List.count_append, List.count_eq_zero.mpr ho,
        List.count_eq_zero.mpr hc, balanced.total]
    · intro u hu
      rcases List.prefix_or_prefix_of_prefix hu (List.prefix_append s t) with hs | ⟨v, rfl⟩
      · rw [List.count_eq_zero.mpr fun h => hc (hs.subset h)]
        exact Nat.zero_le _
      · rw [List.count_append, List.count_append, List.count_eq_zero.mpr ho,
          List.count_eq_zero.mpr hc]
        have := balanced.never_below v ((List.prefix_append_right_inj s).mp hu)
        omega

end AppSurface.Locator
