import AppSurface.Pattern.Reading
import AppSurface.Proofs.PatternTokens

namespace AppSurface.Pattern

variable {fs gs outer : List Frame} {f g : Frame} {t : Token} {ts : List Token}
  {text : List Char} {p : Pattern}

/-- A token does the same to the open groups inside of others, unless it closes the last of them. -/
theorem place_append (hfs : fs ≠ []) (ht : t = .closeGroup → ∀ f, fs ≠ [f]) :
    place (fs ++ outer) t = (· ++ outer) <$> place fs t := by
  obtain ⟨f, fs, rfl⟩ := List.exists_cons_of_ne_nil hfs
  cases t with
  | closeGroup =>
    cases fs with
    | nil => exact absurd rfl (ht rfl f)
    | cons g fs => rfl
  | rep least most greedy =>
    obtain ⟨flags, finished, parts, repeatable⟩ := f
    cases repeatable <;> cases parts <;> rfl
  | _ => rfl

theorem place_ne_nil (h : place fs t = some gs) : gs ≠ [] := by
  rintro rfl
  cases fs with
  | nil => cases h
  | cons f fs =>
    cases t with
    | closeGroup => cases fs <;> cases h
    | rep least most greedy =>
      obtain ⟨flags, finished, parts, repeatable⟩ := f
      cases repeatable <;> cases parts <;> cases h
    | _ => cases h

/-- Tokens that leave groups open do the same inside of others. -/
theorem foldlM_place_append (hfs : fs ≠ []) (h : ts.foldlM place fs = some gs) :
    ts.foldlM place (fs ++ outer) = some (gs ++ outer) := by
  induction ts generalizing fs with
  | nil =>
    cases h
    rfl
  | cons t ts ih =>
    rw [List.foldlM_cons] at h ⊢
    obtain ⟨next, step, rest⟩ := Option.bind_eq_some_iff.mp h
    have open_ : t = .closeGroup → ∀ f, fs ≠ [f] := by
      rintro rfl f rfl
      cases step
    rw [place_append hfs open_, step]
    exact ih (place_ne_nil step) rest

theorem ofText?_eq_some_iff : ofText? text = some p ↔
    ∃ ts f, tokens? text = some ts ∧ ts.foldlM place [Frame.fresh .initial] = some [f] ∧
      f.close = p := by
  unfold ofText? ofTokens?
  simp only [Option.bind_eq_bind, Option.bind_eq_some_iff]
  refine exists_congr fun ts => ?_
  constructor
  · rintro ⟨tokens, h⟩
    split at h
    next f run => exact ⟨f, tokens, run, Option.some.inj h⟩
    next => cases h
  · rintro ⟨f, tokens, run, rfl⟩
    exact ⟨tokens, by rw [run]⟩

/-- A text as the inside of a group between the two ends of the text matched. -/
def anchored (text : List Char) : List Char := "^(?:".toList ++ text ++ ")$".toList

/-- The outermost group once the start of the text has been read. -/
def Frame.afterStart : Frame := (Frame.fresh .initial).push (.anchor .textStart)

/-- A pattern of its own stays one between the anchors. -/
theorem ofText?_anchored (h : ofText? text = some p) :
    ofText? (anchored text) = some (seqs [.anchor .textStart, p, .anchor .textEnd]) := by
  obtain ⟨ts, f, tokens, run, rfl⟩ := ofText?_eq_some_iff.mp h
  obtain ⟨seen, further⟩ := exists_tokensFrom_append tokens
  have whole : tokens? (anchored text) =
      some ([.caret, .openGroup []] ++ (ts ++ [.closeGroup, .dollar])) := by
    have head : tokens? (anchored text) = ([.caret, .openGroup []] ++ ·) <$>
        tokensFrom [] .plain (text ++ [')', '$']) := by
      rw [anchored, List.append_assoc]
      have plain : groupHead? [] [':'] = some (.openGroup [], []) := rfl
      simp [tokens?, tokensFrom, plain, Function.comp_def]
    rw [head, further _ (by decide)]
    rfl
  have inside : ts.foldlM place [Frame.fresh .initial, .afterStart] = some [f, .afterStart] :=
    foldlM_place_append (List.cons_ne_nil _ _) run
  refine ofText?_eq_some_iff.mpr
    ⟨_, (Frame.afterStart.push f.close).push (.anchor .textEnd), whole, ?_, rfl⟩
  rw [List.foldlM_append]
  change (ts ++ [Token.closeGroup, .dollar]).foldlM place [Frame.fresh .initial, .afterStart] = _
  rw [List.foldlM_append, inside]
  rfl

end AppSurface.Pattern
