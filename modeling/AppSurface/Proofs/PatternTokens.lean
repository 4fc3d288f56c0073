import AppSurface.Pattern.Token
import Mathlib.Data.List.Basic

namespace AppSurface.Pattern

variable {names seen : List (List Char)} {r r' : Reading} {s piece rest : List Char}
  {t : Token} {ts us vs : List Token} {c : Char}

/-- A text starts with the token `t`, made of the characters `piece`. -/
structure StartsWith (names : List (List Char)) (r : Reading) (s : List Char) (t : Token)
    (piece rest : List Char) (seen : List (List Char)) : Prop where
  text : s = piece ++ rest
  piece_ne_nil : piece ≠ []
  /-- The same token is read in front of another text that brings in no question mark. -/
  reads : ∀ other, (other.head? = some '?' → rest.head? = some '?') →
    tokensFrom names r (piece ++ other) = (t :: ·) <$> tokensFrom seen .plain other

/-- A text starts with some token. -/
def Starts (names : List (List Char)) (r : Reading) (s : List Char) : Prop :=
  ∃ t piece rest seen, StartsWith names r s t piece rest seen

namespace Starts

theorem of_piece (piece : List Char) (t : Token) (seen : List (List Char)) (hp : piece ≠ [])
    (reads : ∀ other, tokensFrom names r (piece ++ other) =
      (t :: ·) <$> tokensFrom seen .plain other) : Starts names r (piece ++ s) :=
  ⟨t, piece, s, seen, rfl, hp, fun other _ => reads other⟩

/-- A token that a question mark behind it would change. -/
theorem of_extendable (piece : List Char) (t : Token) (seen : List (List Char)) (hp : piece ≠ [])
    (hs : ∀ u, s = '?' :: u → False)
    (reads : ∀ other, (∀ u, other = '?' :: u → False) → tokensFrom names r (piece ++ other) =
      (t :: ·) <$> tokensFrom seen .plain other) : Starts names r (piece ++ s) := by
  refine ⟨t, piece, s, seen, rfl, hp, fun other brings => reads other ?_⟩
  rintro u rfl
  obtain ⟨u, rfl⟩ := List.head?_eq_some_iff.mp (brings rfl)
  exact hs u rfl

/-- The first characters of a class, a count or a group head belong to its token. -/
theorem push (front : List Char)
    (step : ∀ other, other.head? = s.head? →
      tokensFrom names r (front ++ other) = tokensFrom names r' other)
    (h : Starts names r' s) : Starts names r (front ++ s) := by
  obtain ⟨t, piece, rest, seen, rfl, hp, reads⟩ := h
  refine ⟨t, front ++ piece, rest, seen, (List.append_assoc ..).symm, by simp [hp], ?_⟩
  intro other brings
  rw [List.append_assoc, step, reads other brings]
  rw [List.head?_append_of_ne_nil _ hp, List.head?_append_of_ne_nil _ hp]

end Starts

theorem not_cons_of_head? {other : List Char} (hs : ∀ u, s = c :: u → False)
    (h : other.head? = s.head?) : ∀ u, other = c :: u → False := by
  rintro u rfl
  obtain ⟨u, rfl⟩ := List.head?_eq_some_iff.mp h.symm
  exact hs u rfl

theorem tokensFrom_char (hc : c ∉ "\\[\x7b()|*+?^$.".toList) :
    tokensFrom names .plain (c :: s) = (.char c :: ·) <$> tokensFrom names .plain s := by
  rw [tokensFrom]
  -- each other rule for plain text starts with a special character
  all_goals
    intros
    subst_vars
    exact hc (by decide)

/-- Each rule of the reading makes a token of the characters in front, or goes on with one. -/
theorem starts_of_isSome (h : (tokensFrom names r s).isSome = true)
    (hs : r = .plain → s ≠ []) : Starts names r s := by
  fun_induction tokensFrom names r s with
  | case1 => exact absurd rfl (hs rfl)
  | case3 | case25 | case27 | case31 | case34 => cases h
  -- a single character
  | case11 names | case12 names | case19 names | case20 names | case21 names =>
    exact .of_piece [_] _ names (by simp) fun _ => rfl
  | case22 names c s =>
    have ordinary : c ∉ "\\[\x7b()|*+?^$.".toList := by cases s <;> simp_all
    exact .of_piece [c] _ names (by simp) fun _ => tokensFrom_char ordinary
  | case10 names s plain | case14 names s plain | case16 names s plain | case18 names s plain =>
    exact .of_extendable [_] _ names (by simp) plain
      fun _ ho => by rw [List.cons_append, List.nil_append, tokensFrom]; exact ho
  -- two characters
  | case2 names c s =>
    cases he : escape? c with
    | none => simp [he] at h
    | some t =>
      exact .of_piece ['\\', c] t names (by simp) fun other => by simp [tokensFrom, he]
  | case13 names | case15 names | case17 names =>
    exact .of_piece [_, _] _ names (by simp) fun _ => rfl
  -- the first characters of a longer token
  | case4 names s ih => exact .push ['[', '^', ']'] (fun _ _ => rfl) (ih h (by simp))
  | case5 names s plain ih =>
    refine .push ['[', '^'] (fun other ho => ?_) (ih h (by simp))
    rw [List.cons_append, List.cons_append, List.nil_append, tokensFrom]
    exact not_cons_of_head? plain ho
  | case6 names s ih => exact .push ['[', ']'] (fun _ _ => rfl) (ih h (by simp))
  | case7 names s _ unsigned plain ih =>
    refine .push ['['] (fun other ho => ?_) (ih h (by simp))
    rw [List.cons_append, List.nil_append, tokensFrom]
    · exact fun u => not_cons_of_head? unsigned ho _
    · exact not_cons_of_head? unsigned ho
    · exact not_cons_of_head? plain ho
  | case8 names s ih => exact .push ['\x7b'] (fun _ _ => rfl) (ih h (by simp))
  | case9 names s ih => exact .push ['(', '?'] (fun _ _ => rfl) (ih h (by simp))
  -- within a class
  | case23 names held c s ih => exact .push ['\\', c] (fun _ _ => rfl) (ih h (by simp))
  | case24 names held s =>
    cases he : bracket? held.reverse with
    | none => simp [he] at h
    | some t =>
      exact .of_piece [']'] t names (by simp) fun other => by simp [tokensFrom, he]
  | case26 names held c s unescaped ne_close ne_open ih =>
    have hc : c ≠ '\\' := by
      rintro rfl
      cases s with
      | nil => cases h
      | cons d s => exact unescaped d s rfl rfl
    refine .push [c] (fun other _ => ?_) (ih h (by simp))
    rw [List.cons_append, List.nil_append, tokensFrom]
    · exact fun _ _ h => absurd h hc
    · exact ne_close
    · exact ne_open
  -- within a count
  | case28 names held s =>
    cases he : counts? held.reverse with
    | none => simp [he] at h
    | some n =>
      exact .of_piece ['\x7d', '?'] (.rep n.1 n.2 false) names (by simp)
        fun other => by simp [tokensFrom, he]
  | case29 names held s plain =>
    cases he : counts? held.reverse with
    | none => simp [he] at h
    | some n =>
      exact .of_extendable ['\x7d'] (.rep n.1 n.2 true) names (by simp) plain
        fun other _ => by simp [tokensFrom, he]
  | case30 names held c s _ ne_close ih =>
    refine .push [c] (fun other _ => ?_) (ih h (by simp))
    rw [List.cons_append, List.nil_append, tokensFrom]
    · exact fun _ h => absurd h ne_close
    · exact ne_close
  -- within a group head
  | case32 names held c s ends =>
    cases he : groupHead? names (c :: held).reverse with
    | none => simp [he, -List.reverse_cons] at h
    | some p =>
      obtain ⟨t, seen⟩ := p
      exact .of_piece [c] t seen (by simp)
        fun other => by simp [tokensFrom, ends, he, -List.reverse_cons]
  | case33 names held c s goes_on ih =>
    exact .push [c] (fun other _ => by simp [tokensFrom, goes_on]) (ih h (by simp))

/-- The tokens of a text that is not empty: the first one, and those of the text behind it. -/
theorem exists_first_token (h : tokensFrom names .plain s = some ts) (hs : s ≠ []) :
    ∃ t piece rest seen us, StartsWith names .plain s t piece rest seen ∧
      tokensFrom seen .plain rest = some us ∧ t :: us = ts := by
  obtain ⟨t, piece, rest, seen, starts⟩ :=
    starts_of_isSome (Option.isSome_of_eq_some h) fun _ => hs
  rw [starts.text, starts.reads rest id] at h
  obtain ⟨us, hus, hts⟩ := Option.map_eq_some_iff.mp h
  exact ⟨t, piece, rest, seen, us, starts, hus, hts⟩

theorem eq_nil_of_tokensFrom (h : tokensFrom names .plain s = some []) : s = [] := by
  by_contra hs
  obtain ⟨_, _, _, _, _, _, _, hts⟩ := exists_first_token h hs
  cases hts

theorem exists_startsWith (h : tokensFrom names .plain s = some (t :: ts)) :
    ∃ piece rest seen, StartsWith names .plain s t piece rest seen ∧
      tokensFrom seen .plain rest = some ts := by
  have hs : s ≠ [] := by
    rintro rfl
    cases h
  obtain ⟨t, piece, rest, seen, us, starts, hus, hts⟩ := exists_first_token h hs
  cases hts
  exact ⟨piece, rest, seen, starts, hus⟩

/-- A text keeps its tokens when another text, with no question mark in front, is put behind it. -/
theorem exists_tokensFrom_append (h : tokensFrom names .plain s = some ts) :
    ∃ seen, ∀ other, other.head? ≠ some '?' →
      tokensFrom names .plain (s ++ other) = (ts ++ ·) <$> tokensFrom seen .plain other := by
  induction ts generalizing names s with
  | nil =>
    obtain rfl := eq_nil_of_tokensFrom h
    exact ⟨names, fun other _ => by simp⟩
  | cons t ts ih =>
    obtain ⟨piece, rest, seen, starts, hts⟩ := exists_startsWith h
    obtain ⟨last, further⟩ := ih hts
    refine ⟨last, fun other plain => ?_⟩
    have brings : (rest ++ other).head? = some '?' → rest.head? = some '?' := by
      cases rest with
      | nil => exact fun asks => absurd asks plain
      | cons d rest => exact id
    rw [starts.text, List.append_assoc, starts.reads _ brings, further other plain]
    cases tokensFrom last .plain other <;> rfl

end AppSurface.Pattern
