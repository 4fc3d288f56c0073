import AppSurface.Java.Token
import AppSurface.Proofs.Places

namespace AppSurface.Java

def Token.place (t : Token) : Place := ⟨t.first, t.stop⟩

/-- What is read at a position starts behind `stop`, where the last finished token ends. -/
def Lexing.Ready (stop position : Nat) : Lexing → Prop
  | .skip n => stop ≤ position + n
  | .word first _ => stop ≤ first ∧ first < position
  | .quoted first _ _ => stop ≤ first ∧ first < position
  | .textBlock first _ _ => stop ≤ first ∧ first < position
  | _ => stop ≤ position

theorem Lexing.Ready.mono {stop position position' : Nat} {l : Lexing} (h : l.Ready stop position)
    (hle : position ≤ position') : l.Ready stop position' := by
  cases l with
  | word _ _ | quoted _ _ _ | textBlock _ _ _ => exact ⟨h.1, Nat.lt_of_lt_of_le h.2 hle⟩
  | skip n =>
    change stop ≤ position + n at h
    change stop ≤ position' + n
    omega
  | _ => exact Nat.le_trans h hle

/-- Tokens that are finished before a position follow one another behind `stop` in a text of length
`n`, and what is read then starts behind them. -/
def Yields (stop n position : Nat) (ts : List Token) (l : Lexing) : Prop :=
  ∃ stop' ≤ n, InOrder stop (ts.map Token.place) stop' ∧ l.Ready stop' position

variable {stop n position : Nat} {t : Token} {ts : List Token} {l : Lexing} {c : Char}
  {s : List Char}

theorem Yields.none (hn : stop ≤ n) (h : l.Ready stop position) : Yields stop n position [] l :=
  ⟨stop, hn, .nil (Nat.le_refl _), h⟩

theorem Yields.cons (hlo : stop ≤ t.first) (ht : t.first < t.stop)
    (h : Yields t.stop n position ts l) : Yields stop n position (t :: ts) l := by
  obtain ⟨stop', hn, tokens, ready⟩ := h
  exact ⟨stop', hn, (InOrder.single (p := t.place) hlo ht).append tokens, ready⟩

theorem begin_yields (h : stop ≤ position) (hn : position + (s.length + 1) = n) :
    Yields stop n (position + 1) (begin position c s).1.toList (begin position c s).2 := by
  have one : ∀ text, Yields stop n (position + 1)
      [⟨.mark, text, position, position + 1⟩] .code := by
    intro text
    refine .cons h ?_ (.none ?_ ?_)
    · exact Nat.lt_succ_self _
    · change position + 1 ≤ n
      omega
    · exact Nat.le_refl _
  -- a mark of two characters, of which the second is passed over next
  have two : ∀ text u, s = '=' :: u → Yields stop n (position + 1)
      [⟨.mark, text, position, position + 2⟩] (.skip 1) := by
    rintro text u rfl
    simp only [List.length_cons] at hn
    refine .cons h ?_ (.none ?_ ?_)
    · change position < position + 2
      omega
    · change position + 2 ≤ n
      omega
    · exact Nat.le_refl _
  have none : ∀ l : Lexing, l.Ready stop (position + 1) → Yields stop n (position + 1) [] l :=
    fun l ready => .none (by omega) ready
  unfold begin
  split
  · exact none _ ⟨h, Nat.lt_succ_self _⟩
  split
  · exact none _ (Nat.le_succ_of_le h)
  split
  · exact none _ (Nat.le_succ_of_le h)
  · exact none _ (Nat.le_succ_of_le h)
  · exact none _ ⟨h, Nat.lt_succ_self _⟩
  · exact none _ ⟨h, Nat.lt_succ_self _⟩
  · exact none _ ⟨h, Nat.lt_succ_self _⟩
  · exact two _ _ rfl
  · exact two _ _ rfl
  · exact two _ _ rfl
  · exact two _ _ rfl
  · exact one _

theorem step_yields (h : l.Ready stop position) (hstop : stop ≤ n)
    (hn : position + (s.length + 1) = n) :
    Yields stop n (position + 1) (l.step position c s).1 (l.step position c s).2 := by
  have none : ∀ l : Lexing, l.Ready stop (position + 1) → Yields stop n (position + 1) [] l :=
    fun l ready => .none hstop ready
  have later : stop ≤ position → stop ≤ position + 1 := Nat.le_succ_of_le
  have held : ∀ first, stop ≤ first ∧ first < position → stop ≤ first ∧ first < position + 1 :=
    fun first hf => ⟨hf.1, Nat.lt_succ_of_lt hf.2⟩
  cases l with
  | code => exact begin_yields h hn
  | skip k =>
    unfold Lexing.Ready at h
    rcases k with _ | _ | k
    · exact begin_yields h hn
    · exact none _ h
    · refine none (.skip (k + 1)) ?_
      change stop ≤ position + 1 + (k + 1)
      omega
  | word first text =>
    simp only [Lexing.step]
    split
    · exact none _ (held _ h)
    · exact .cons h.1 h.2 (begin_yields (Nat.le_refl _) hn)
  | lineComment =>
    refine none _ ?_
    simp only [Lexing.step]
    split
    · exact later h
    · exact later h
  | commentOpening => exact none _ (later h)
  | blockComment =>
    simp only [Lexing.step]
    split
    · exact none _ (Nat.le_succ_of_le (later h))
    · exact none _ (later h)
  | quoted first quote escaped =>
    simp only [Lexing.step]
    split
    · exact none _ (held _ h)
    split
    · exact none _ (held _ h)
    split
    · refine .cons h.1 (held _ h).2 (.none ?_ ?_)
      · change position + 1 ≤ n
        omega
      · exact Nat.le_refl _
    · exact none _ (held _ h)
  | textBlock first opening escaped =>
    cases opening with
    | succ k => exact none _ (held _ h)
    | zero =>
      simp only [Lexing.step]
      split
      · exact none _ (held _ h)
      split
      · exact none _ (held _ h)
      · simp only [List.length_cons] at hn
        refine .cons h.1 ?_ (.none ?_ ?_)
        · exact Nat.lt_of_lt_of_le h.2 (Nat.le_add_right _ 3)
        · change position + 3 ≤ n
          omega
        · change position + 3 ≤ position + 1 + 2
          omega
      · exact none _ (held _ h)

/-- What is read on outside of all embedded expressions. -/
def outermost (l : Lexing) : List Template → Lexing
  | [] => l
  | t :: outer => outermost t.rest outer

def Scan.Ready (stop position : Nat) (r : Scan) : Prop :=
  (outermost r.state r.inside).Ready stop position

theorem Scan.Ready.follow {t : Template} {outer : List Template}
    (h : (Scan.mk l (t :: outer)).Ready stop position) (l' : Lexing) (u : Option Token) :
    (t.follow outer l' u).Ready stop position := by
  unfold Template.follow
  split
  · exact h
  split
  · exact h
  split
  · split
    · exact h
    · exact h
  · exact h

/-- Nothing that is read in an embedded expression is a token of its own. -/
theorem scan_yields {r : Scan} (h : r.Ready stop position) (hstop : stop ≤ n)
    (hn : position + (s.length + 1) = n) :
    ∃ stop' ≤ n, InOrder stop ((r.step position c s).1.map Token.place) stop' ∧
      (r.step position c s).2.Ready stop' (position + 1) := by
  obtain ⟨l, inside⟩ := r
  have still : (Scan.mk l inside).Ready stop (position + 1) := Lexing.Ready.mono h (Nat.le_succ _)
  unfold Scan.step
  split
  · exact ⟨stop, hstop, .nil (Nat.le_refl _), still⟩
  · cases inside with
    | nil => exact step_yields h hstop hn
    | cons t outer => exact ⟨stop, hstop, .nil (Nat.le_refl _), still.follow _ _⟩

theorem tokensFrom_inOrder (found : List Token) {r : Scan} (h : r.Ready stop position)
    (hstop : stop ≤ n) (hn : position + s.length = n) :
    ∃ ts : List Token, tokensFrom r position found s = ts.reverse ++ found ∧
      InOrder stop (ts.map Token.place) n := by
  induction s generalizing r stop position found with
  | nil =>
    unfold tokensFrom
    split
    next first text =>
      refine ⟨[⟨.word, text.reverse, first, position⟩], rfl, ?_⟩
      exact (InOrder.single (p := ⟨first, position⟩) h.1 h.2).mono (Nat.le_refl _) (Nat.le_of_eq hn)
    next => exact ⟨[], rfl, .nil hstop⟩
  | cons c s ih =>
    obtain ⟨stop', hn', tokens, ready⟩ := scan_yields (c := c) h hstop hn
    have rest : position + 1 + s.length = n := by
      rw [List.length_cons] at hn
      omega
    obtain ⟨ts, found', order⟩ := ih ((r.step position c s).1.reverse ++ found) ready hn' rest
    refine ⟨(r.step position c s).1 ++ ts, ?_, ?_⟩
    · rw [List.reverse_append, List.append_assoc, ← found']
      rfl
    · rw [List.map_append]
      exact tokens.append order

/-- The tokens of a text follow one another in it. -/
theorem tokens_inOrder (s : List Char) : InOrder 0 ((tokens s).map Token.place) s.length := by
  have ready : (Scan.mk .code []).Ready 0 0 := Nat.le_refl _
  obtain ⟨ts, found, order⟩ := tokensFrom_inOrder [] ready (Nat.zero_le _) (Nat.zero_add _)
  rw [tokens, found, List.append_nil, List.reverse_reverse]
  exact order

end AppSurface.Java
