import Mathlib.Data.String.Basic

namespace AppSurface

/-- The bytes of a text in UTF-8. -/
def bytes (text : String) : List UInt8 := text.toUTF8.data.toList

theorem bytes_eq_flatMap (text : String) : bytes text = text.toList.flatMap String.utf8EncodeChar := by
  rw [bytes, String.toUTF8, ← String.ofList_toList (s := text), String.toByteArray_ofList,
    List.utf8Encode]
  simp

theorem utf8EncodeChar_lt {c d : Char} (h : c < d) (s t : List UInt8) :
    String.utf8EncodeChar c ++ s < String.utf8EncodeChar d ++ t := by
  have less : c.val.toNat < d.val.toNat := h
  have bound : d.val.toNat < 0x110000 := by
    rcases d.valid with low | high
    · exact low.trans (by decide)
    · exact high.2
  unfold String.utf8EncodeChar
  generalize c.val.toNat = m at *
  generalize d.val.toNat = n at *
  -- the bytes behind the first one are digits to the base 64
  have digits : ∀ k, k / 4096 = k / 64 / 64 ∧ k / 262144 = k / 4096 / 64 := fun k =>
    ⟨(Nat.div_div_eq_div_mul k 64 64).symm, (Nat.div_div_eq_div_mul k 4096 64).symm⟩
  have digits_m := digits m
  have digits_n := digits n
  dsimp only
  repeat' split
  all_goals
    simp (disch := omega) only [List.cons_append, List.nil_append, List.cons_lt_cons_iff,
      UInt8.lt_iff_toNat_lt, ← UInt8.toNat_inj, UInt8.toNat_ofNat', Nat.mod_eq_of_lt]
    omega

theorem flatMap_utf8EncodeChar_lt {s t : List Char} (h : s < t) :
    s.flatMap String.utf8EncodeChar < t.flatMap String.utf8EncodeChar := by
  have lex : List.Lex (· < ·) s t := h
  induction lex with
  | @nil c t =>
    obtain ⟨x, xs, hx⟩ := List.exists_cons_of_ne_nil (String.utf8EncodeChar_ne_nil (c := c))
    simp [hx]
  | @cons c s t _ ih =>
    simp only [List.flatMap_cons]
    exact List.append_left_lt (ih ‹_›)
  | rel hc => exact utf8EncodeChar_lt hc _ _

/-- The order of texts is that of their bytes. -/
theorem lt_iff_bytes_lt {a b : String} : a < b ↔ bytes a < bytes b := by
  have forward {a b : String} (h : a < b) : bytes a < bytes b := by
    rw [bytes_eq_flatMap, bytes_eq_flatMap]
    exact flatMap_utf8EncodeChar_lt (String.lt_iff_toList_lt.1 h)
  refine ⟨forward, fun h => ?_⟩
  rcases lt_trichotomy a b with less | rfl | greater
  · exact less
  · exact absurd h (List.lt_irrefl _)
  · exact absurd h (List.lt_asymm (forward greater))

theorem le_iff_bytes_le {a b : String} : a ≤ b ↔ bytes a ≤ bytes b := by
  rw [← not_lt, lt_iff_bytes_lt, List.not_lt]

end AppSurface
