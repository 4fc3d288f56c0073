import AppSurface.Proofs.Chain
import AppSurface.Proofs.Cursor

namespace AppSurface

namespace Pattern

variable {α : Type} {p : Pattern} {c d : Cursor} {accept : Cursor → Option α} {a : α}

/-- The pattern matches from one place to another. A repetition has as many copies as its bounds
allow; a maximum below the minimum counts as the minimum. -/
def Matches : Pattern → Cursor → Cursor → Prop
  | .empty, c, d => c = d
  | .set s, c, d => ∃ x, c.next? = some (x, d) ∧ s.contains x = true
  | .anchor a, c, d => a.holds c = true ∧ c = d
  | .seq p q, c, d => ∃ e, p.Matches c e ∧ q.Matches e d
  | .alt p q, c, d => p.Matches c d ∨ q.Matches c d
  | .rep least most _ p, c, d => ∃ l, Chain p.Matches c l d ∧ least ≤ l.length ∧
      ∀ n, most = some n → l.length ≤ max least n

/-- Hops that each read characters with a property read such characters together. -/
theorem chain_reads {r : Cursor → Cursor → Prop} {P : Char → Prop} {l : List Cursor}
    (reads : ∀ c d, r c d → ∃ w, Cursor.Reads c w d ∧ ∀ x ∈ w, P x) (chain : Chain r c l d) :
    ∃ w, Cursor.Reads c w d ∧ ∀ x ∈ w, P x := by
  induction chain with
  | nil c => exact ⟨[], .nil c, by simp⟩
  | cons hop _ ih =>
    obtain ⟨v, hv, first⟩ := reads _ _ hop
    obtain ⟨w, hw, others⟩ := ih
    exact ⟨v ++ w, hv.append hw, List.forall_mem_append.mpr ⟨first, others⟩⟩

/-- A match reads the characters between its ends. -/
theorem Matches.exists_reads (h : p.Matches c d) : ∃ w, Cursor.Reads c w d := by
  induction p generalizing c d with
  | empty =>
    cases h
    exact ⟨[], .nil c⟩
  | set s =>
    obtain ⟨x, hx, _⟩ := h
    exact ⟨[x], .cons hx (.nil d)⟩
  | anchor a =>
    obtain ⟨_, rfl⟩ := h
    exact ⟨[], .nil c⟩
  | seq p q ihp ihq =>
    obtain ⟨e, hp, hq⟩ := h
    obtain ⟨v, hv⟩ := ihp hp
    obtain ⟨w, hw⟩ := ihq hq
    exact ⟨v ++ w, hv.append hw⟩
  | alt p q ihp ihq => exact h.elim ihp ihq
  | rep least most greedy p ih =>
    obtain ⟨l, chain, _⟩ := h
    obtain ⟨w, hw, _⟩ :=
      chain_reads (P := fun _ => True) (fun _ _ hop => by simpa using ih hop) chain
    exact ⟨w, hw⟩

theorem holds_congr {c' : Cursor} (a : Anchor) (ha : c'.after = c.after)
    (hb : c'.before = c.before) : a.holds c' = a.holds c := by
  unfold Anchor.holds
  rw [ha, hb]

/-- A pattern matches alike at two places with the same text before and behind them. -/
theorem Matches.congr {c' : Cursor} (h : p.Matches c d) (ha : c'.after = c.after)
    (hb : c'.before = c.before) :
    ∃ d', p.Matches c' d' ∧ d'.after = d.after ∧ d'.before = d.before := by
  induction p generalizing c d c' with
  | empty =>
    cases h
    exact ⟨c', rfl, ha, hb⟩
  | set s =>
    obtain ⟨x, hx, hs⟩ := h
    obtain ⟨hc, _, hd⟩ := Cursor.next?_eq_some hx
    obtain ⟨d', hx', after⟩ := Cursor.exists_next (ha.trans hc)
    exact ⟨d', ⟨x, hx', hs⟩, after, by rw [hd, (Cursor.next?_eq_some hx').2.2]⟩
  | anchor a =>
    obtain ⟨holds, rfl⟩ := h
    exact ⟨c', ⟨(holds_congr a ha hb).trans holds, rfl⟩, ha, hb⟩
  | seq p q ihp ihq =>
    obtain ⟨e, hp, hq⟩ := h
    obtain ⟨e', hp', ha, hb⟩ := ihp hp ha hb
    obtain ⟨d', hq', h⟩ := ihq hq ha hb
    exact ⟨d', ⟨e', hp', hq'⟩, h⟩
  | alt p q ihp ihq =>
    rcases h with h | h
    · obtain ⟨d', hm, h⟩ := ihp h ha hb
      exact ⟨d', .inl hm, h⟩
    · obtain ⟨d', hm, h⟩ := ihq h ha hb
      exact ⟨d', .inr hm, h⟩
  | rep least most greedy p ih =>
    obtain ⟨l, chain, bounds⟩ := h
    suffices ∃ l' d', Chain p.Matches c' l' d' ∧ l'.length = l.length ∧ d'.after = d.after ∧
        d'.before = d.before by
      obtain ⟨l', d', chain', hl, h⟩ := this
      exact ⟨d', ⟨l', chain', hl ▸ bounds⟩, h⟩
    clear bounds
    induction chain generalizing c' with
    | nil c => exact ⟨[], c', .nil c', rfl, ha, hb⟩
    | cons hop _ rest =>
      obtain ⟨e', hop', ha, hb⟩ := ih hop ha hb
      obtain ⟨l', d', chain', hl, h⟩ := rest ha hb
      exact ⟨e' :: l', d', .cons hop' chain', congrArg Nat.succ hl, h⟩

section Repetition

variable {step : Cursor → (Cursor → Option α) → Option α} {r : Cursor → Cursor → Prop}
  {greedy : Bool} {n : Nat} {l : List Cursor}

/-- One repetition more, when it consumes something, and none: the preferred of them comes first. -/
theorem upTo_succ (greedy : Bool) (step : Cursor → (Cursor → Option α) → Option α) (n : Nat)
    (c : Cursor) (accept : Cursor → Option α) :
    let further :=
      step c fun d => if c.offset < d.offset then upTo greedy step n d accept else none
    upTo greedy step (n + 1) c accept =
      if greedy then further.or (accept c) else (accept c).or further := by
  simp [upTo]

section Sound

variable (sound : ∀ c accept a, step c accept = some a → ∃ d, r c d ∧ accept d = some a)
include sound

theorem times_eq_some (h : times step n c accept = some a) :
    ∃ l d, Chain r c l d ∧ l.length = n ∧ accept d = some a := by
  induction n generalizing c with
  | zero => exact ⟨[], c, .nil c, rfl, h⟩
  | succ n ih =>
    obtain ⟨d, hd, h⟩ := sound _ _ _ h
    obtain ⟨l, e, chain, hl, he⟩ := ih h
    exact ⟨d :: l, e, .cons hd chain, by rw [List.length_cons, hl], he⟩

theorem upTo_eq_some (h : upTo greedy step n c accept = some a) :
    ∃ l d, Chain r c l d ∧ l.length ≤ n ∧ accept d = some a := by
  induction n generalizing c with
  | zero => exact ⟨[], c, .nil c, Nat.le_refl 0, h⟩
  | succ n ih =>
    have stop : accept c = some a →
        ∃ l d, Chain r c l d ∧ l.length ≤ n + 1 ∧ accept d = some a :=
      fun h => ⟨[], c, .nil c, Nat.zero_le _, h⟩
    have further : (step c fun d => if c.offset < d.offset then upTo greedy step n d accept
        else none) = some a → ∃ l d, Chain r c l d ∧ l.length ≤ n + 1 ∧ accept d = some a := by
      intro h
      obtain ⟨d, hd, h⟩ := sound _ _ _ h
      split at h
      · obtain ⟨l, e, chain, hl, he⟩ := ih h
        exact ⟨d :: l, e, .cons hd chain, Nat.succ_le_succ hl, he⟩
      · cases h
    simp only [upTo_succ] at h
    split at h
    · exact (Option.or_eq_some_iff.mp h).elim further fun h => stop h.2
    · exact (Option.or_eq_some_iff.mp h).elim stop fun h => further h.2

end Sound

section Complete

variable (complete : ∀ c d accept, r c d → (accept d).isSome = true →
  (step c accept).isSome = true)
include complete

theorem isSome_times (chain : Chain r c l d) (h : (accept d).isSome = true) :
    (times step l.length c accept).isSome = true := by
  induction chain with
  | nil c => exact h
  | cons hop _ ih => exact complete _ _ _ hop (ih h)

theorem isSome_upTo (chain : Chain (fun c d => r c d ∧ c.offset < d.offset) c l d)
    (hl : l.length ≤ n) (h : (accept d).isSome = true) :
    (upTo greedy step n c accept).isSome = true := by
  induction chain generalizing n with
  | nil c =>
    cases n with
    | zero => exact h
    | succ n => cases greedy <;> simp [upTo_succ, h]
  | @cons c d e l hop _ ih =>
    obtain ⟨n, rfl⟩ := Nat.exists_eq_add_of_le' hl
    have further : (step c fun d => if c.offset < d.offset then
        upTo greedy step (n + l.length) d accept else none).isSome = true := by
      refine complete _ _ _ hop.1 ?_
      rw [if_pos hop.2]
      exact ih (Nat.le_add_left _ _) h
    rw [List.length_cons, ← Nat.add_assoc, upTo_succ]
    split <;> simp [further]

end Complete

/-- Copies that consume nothing can be left out of a chain of copies, and then there are no more
of them than characters consumed. -/
theorem exists_consuming (reads : ∀ c d, r c d → ∃ w, Cursor.Reads c w d) (chain : Chain r c l d) :
    ∃ k, Chain (fun c d => r c d ∧ c.offset < d.offset) c k d ∧ k.length ≤ l.length ∧
      k.length + d.after.length ≤ c.after.length := by
  induction chain with
  | nil c => exact ⟨[], .nil c, Nat.le_refl 0, by simp⟩
  | @cons c d e l hop _ ih =>
    obtain ⟨k, chain, hk, hlen⟩ := ih
    obtain ⟨w, hw⟩ := reads c d hop
    by_cases he : w = []
    · subst he
      cases hw
      exact ⟨k, chain, Nat.le_succ_of_le hk, hlen⟩
    · refine ⟨d :: k, .cons ⟨hop, hw.offset_lt he⟩ chain, Nat.succ_le_succ hk, ?_⟩
      have := List.length_pos_iff.mpr he
      rw [hw.after_eq, List.length_append, List.length_cons]
      omega

end Repetition

/-- What a run accepts is accepted at the end of a match. -/
theorem run_eq_some (h : p.run c accept = some a) : ∃ d, p.Matches c d ∧ accept d = some a := by
  induction p generalizing c accept a with
  | empty => exact ⟨c, rfl, h⟩
  | set s =>
    rw [run] at h
    split at h
    next x d hx =>
      split at h
      next hs => exact ⟨d, ⟨x, hx, hs⟩, h⟩
      next => cases h
    next => cases h
  | anchor b =>
    rw [run] at h
    split at h
    next hb => exact ⟨c, ⟨hb, rfl⟩, h⟩
    next => cases h
  | seq p q ihp ihq =>
    obtain ⟨e, he, h⟩ := ihp h
    obtain ⟨d, hd, h⟩ := ihq h
    exact ⟨d, ⟨e, he, hd⟩, h⟩
  | alt p q ihp ihq =>
    simp only [run, Option.orElse_eq_orElse, Option.orElse_eq_or, Option.or_eq_some_iff] at h
    rcases h with h | ⟨_, h⟩
    · obtain ⟨d, hd, h⟩ := ihp h
      exact ⟨d, .inl hd, h⟩
    · obtain ⟨d, hd, h⟩ := ihq h
      exact ⟨d, .inr hd, h⟩
  | rep least most greedy p ih =>
    have sound : ∀ c (accept : Cursor → Option α) a, p.run c accept = some a →
        ∃ d, p.Matches c d ∧ accept d = some a := fun _ _ _ h => ih h
    obtain ⟨l, e, first, hl, h⟩ := times_eq_some sound h
    obtain ⟨k, d, second, hk, h⟩ := upTo_eq_some sound h
    refine ⟨d, ⟨l ++ k, first.append second, ?_, ?_⟩, h⟩
    · rw [List.length_append]
      omega
    · rintro n rfl
      rw [List.length_append]
      simp only at hk
      omega

/-- A run accepts if some match ends at an accepted place. -/
theorem isSome_run (hm : p.Matches c d) (h : (accept d).isSome = true) :
    (p.run c accept).isSome = true := by
  induction p generalizing c d accept with
  | empty =>
    cases hm
    exact h
  | set s =>
    obtain ⟨x, hx, hs⟩ := hm
    simp [run, hx, hs, h]
  | anchor b =>
    obtain ⟨hb, rfl⟩ := hm
    simp [run, hb, h]
  | seq p q ihp ihq =>
    obtain ⟨e, he, hd⟩ := hm
    exact ihp he (ihq hd h)
  | alt p q ihp ihq =>
    simp only [run, Option.orElse_eq_orElse, Option.orElse_eq_or, Option.isSome_or, Bool.or_eq_true]
    exact hm.imp (fun hm => ihp hm h) fun hm => ihq hm h
  | rep least most greedy p ih =>
    obtain ⟨l, chain, hl, hmost⟩ := hm
    have complete : ∀ c d (accept : Cursor → Option α), p.Matches c d →
        (accept d).isSome = true → (p.run c accept).isSome = true := fun _ _ _ hm h => ih hm h
    obtain ⟨e, first, second⟩ := Chain.of_append (l := l.take least) (k := l.drop least)
      (by rwa [List.take_append_drop])
    obtain ⟨k, advancing, hk, hlen⟩ := exists_consuming (fun _ _ => Matches.exists_reads) second
    have count : (l.take least).length = least := List.length_take_of_le hl
    rw [run, ← count]
    refine isSome_times complete first (isSome_upTo complete advancing ?_ h)
    rw [List.length_drop] at hk
    cases most with
    | none =>
      simp only
      omega
    | some n =>
      have := hmost n rfl
      simp only [count]
      omega

theorem run_some_eq_none_iff : p.run c some = none ↔ ∀ d, ¬p.Matches c d := by
  constructor
  · intro h d hm
    have found : (p.run c some).isSome = true := isSome_run hm rfl
    rw [h] at found
    cases found
  · intro none
    cases h : p.run c some with
    | none => rfl
    | some d => exact absurd (run_eq_some h).choose_spec.1 (none _)

/-- A search for a pattern finds nothing exactly when it matches nowhere. -/
theorem find?_eq_none_iff {s : List Char} :
    p.find? s = none ↔ ∀ w c, Cursor.Reads (.start s) w c → ∀ d, ¬p.Matches c d := by
  simp only [find?, Cursor.places, Cursor.findSome?_placesFrom_eq_none_iff, Option.map_eq_none_iff,
    run_some_eq_none_iff, Cursor.start]

/-- A search finds a match, and no match begins before it. -/
theorem find?_eq_some {s : List Char} (h : p.find? s = some (c, d)) :
    p.Matches c d ∧ ∃ w, Cursor.Reads (.start s) w c ∧
      ∀ v e, Cursor.Reads (.start s) v e → v.length < w.length → ∀ d, ¬p.Matches e d := by
  obtain ⟨w, c', hw, hc, first⟩ := Cursor.findSome?_placesFrom_eq_some h
  obtain ⟨d', hd, he⟩ := Option.map_eq_some_iff.mp hc
  obtain ⟨rfl, rfl⟩ := Prod.mk.inj he
  obtain ⟨_, hm, hd⟩ := run_eq_some hd
  cases hd
  refine ⟨hm, w, hw, ?_⟩
  intro v e hv hlt
  exact run_some_eq_none_iff.mp (Option.map_eq_none_iff.mp (first v e hv hlt))

theorem matchesIn_iff {s : List Char} :
    p.matchesIn s = true ↔ ∃ w c, Cursor.Reads (.start s) w c ∧ ∃ d, p.Matches c d := by
  rw [matchesIn, Option.isSome_iff_ne_none, ne_eq, find?_eq_none_iff]
  push Not
  rfl

end Pattern

end AppSurface
