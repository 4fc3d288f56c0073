import AppSurface.Proofs.Braces
import AppSurface.Proofs.PatternText

namespace AppSurface.Locator

open Cursor (Reads)
open Pattern

variable {source name head before rest block body : List Char} {c d : Cursor} {w : List Char}

/-- The text of a head, up to the opening brace: a modifier, at least one character, and somewhere
behind it the name, then blanks, then an opening parenthesis. -/
structure IsHead (name head : List Char) : Prop where
  braceless : '{' ∉ head
  parts : ∃ m ∈ modifiers, ∃ v b t, head = m.toList ++ (v ++ (name ++ (b ++ '(' :: t))) ∧ v ≠ [] ∧
    ∀ x ∈ b, Unicode.isBlank x = true

theorem notOpenBrace_contains {w : List Char} :
    (∀ x ∈ w, (CharSet.compl (.only '{')).contains x = true) ↔ '{' ∉ w := by
  have other : ∀ x, (CharSet.compl (.only '{')).contains x = true ↔ x ≠ '{' := by
    intro x
    rw [CharSet.contains, Bool.not_eq_true', ← Bool.not_eq_true, contains_only]
  simp only [other]
  exact ⟨fun h hm => h _ hm rfl, fun h x hx he => h (he ▸ hx)⟩

theorem modifier_braceless : ∀ m ∈ modifiers, '{' ∉ m.toList := by decide

theorem matches_modifier_iff : (alts (modifiers.map fun m => literal m.toList)).Matches c d ↔
    ∃ m ∈ modifiers, Reads c m.toList d := by
  rw [matches_alts_iff (by decide)]
  simp only [List.mem_map, exists_exists_and_eq_and, matches_literal_iff]

/-- What one modifier or more match starts with a modifier, and has no opening brace. -/
theorem matches_modifiers
    (h : (plus (alts (modifiers.map fun m => literal m.toList))).Matches c d) :
    ∃ m ∈ modifiers, ∃ u, Reads c (m.toList ++ u) d ∧ '{' ∉ u := by
  obtain ⟨e, first, l, others, _⟩ := matches_plus_iff.mp h
  obtain ⟨m, hm, hw⟩ := matches_modifier_iff.mp first
  have braceless : ∀ c d, (alts (modifiers.map fun m => literal m.toList)).Matches c d →
      ∃ w, Reads c w d ∧ ∀ x ∈ w, x ≠ '{' := by
    intro c d hop
    obtain ⟨k, hk, hw⟩ := matches_modifier_iff.mp hop
    exact ⟨k.toList, hw, fun x hx he => modifier_braceless k hk (he ▸ hx)⟩
  obtain ⟨u, hu, none⟩ := chain_reads braceless others
  exact ⟨m, hm, u, hw.append hu, fun h => none _ h rfl⟩

theorem blank_braceless {b : List Char} (hb : ∀ x ∈ b, Unicode.isBlank x = true) : '{' ∉ b :=
  fun h => absurd (hb _ h) (by decide)

theorem header_matches_iff (hb : '{' ∉ name) :
    (header name).Matches c d ↔ ∃ head, IsHead name head ∧ Reads c (head ++ ['{']) d := by
  simp only [header, seqs, Matches, notOpenBrace, matches_plus_set_iff, matches_literal_iff,
    matches_star_set_iff, matches_char_iff, notOpenBrace_contains]
  constructor
  · rintro ⟨_, hm, _, ⟨v, hv, hvb, hne⟩, _, hn, _, ⟨b, hbl, blank⟩, _, hp, _, ⟨t, ht, htb⟩, ho⟩
    obtain ⟨m, hmod, u, hu, hub⟩ := matches_modifiers hm
    refine ⟨m.toList ++ ((u ++ v) ++ (name ++ (b ++ '(' :: t))), ⟨?_, ?_⟩, ?_⟩
    · simp [modifier_braceless m hmod, hub, hvb, hb, blank_braceless blank, htb]
    · exact ⟨m, hmod, u ++ v, b, t, rfl, List.append_ne_nil_of_right_ne_nil u hne, blank⟩
    · simpa using hu.append (hv.append (hn.append (hbl.append (hp.append (ht.append ho)))))
  · rintro ⟨_, ⟨braceless, m, hmod, v, b, t, rfl, hne, blank⟩, reads⟩
    have parts : Reads c (m.toList ++ (v ++ (name ++ (b ++ (['('] ++ (t ++ ['{'])))))) d := by
      simpa using reads
    obtain ⟨e, hm, parts⟩ := parts.of_append
    obtain ⟨_, hv, parts⟩ := parts.of_append
    obtain ⟨_, hn, parts⟩ := parts.of_append
    obtain ⟨_, hbl, parts⟩ := parts.of_append
    obtain ⟨_, hp, parts⟩ := parts.of_append
    obtain ⟨_, ht, ho⟩ := parts.of_append
    have first := matches_modifier_iff.mpr ⟨m, hmod, hm⟩
    simp only [List.mem_append, List.mem_cons, not_or] at braceless
    exact ⟨e, matches_plus_iff.mpr ⟨e, first, matches_star_self⟩, _, ⟨v, hv, braceless.2.1, hne⟩,
      _, hn, _, ⟨b, hbl, blank⟩, _, hp, _, ⟨t, ht, braceless.2.2.2.2.2⟩, ho⟩

/-- A match of a head ends behind an opening brace. -/
theorem exists_reads_of_header (h : (header name).Matches c d) :
    ∃ head e, Reads c head e ∧ Reads e ['{'] d := by
  change (seqs ([_, _, _, _, _, _] ++ [char '{'])).Matches c d at h
  obtain ⟨head, e, hw, hm⟩ := exists_last_of_matches_seqs h
  exact ⟨head, e, hw, matches_char_iff.mp hm⟩

theorem exists_brace_of_header (h : (header name).Matches c d) :
    ∃ head, c.after = head ++ '{' :: d.after := by
  obtain ⟨head, e, hw, ho⟩ := exists_reads_of_header h
  exact ⟨head, by rw [hw.after_eq, ho.after_eq, List.singleton_append]⟩

/-- The text found for a method is `head` and `block`, and `block` begins with the brace from which
braces are counted. -/
def Located (source name head block : List Char) : Prop :=
  name ≠ [] ∧ ∃ c d after, (header name).find? source = some (c, d) ∧
    afterBlock 0 d.after = some after ∧ '{' :: d.after = block ++ after ∧
    c.after = head ++ (block ++ after)

theorem body?_eq_some_iff {body : List Char} : body? source name = some body ↔
    ∃ head block, Located source name head block ∧ body = head ++ block := by
  constructor
  · intro h
    unfold body? at h
    split at h
    · cases h
    next hn =>
      obtain ⟨⟨c, d⟩, hf, h⟩ := Option.bind_eq_some_iff.mp h
      obtain ⟨after, ha, h⟩ := Option.bind_eq_some_iff.mp h
      obtain ⟨head, hc⟩ := exists_brace_of_header (find?_eq_some hf).1
      obtain ⟨t, hd, _⟩ := afterBlock_eq_some ha
      have text : c.after = (head ++ '{' :: t) ++ after := by simp [hc, hd]
      have named : name ≠ [] := fun he => hn (List.isEmpty_iff.mpr he)
      refine ⟨head, '{' :: t, ⟨named, c, d, after, hf, ha, by rw [hd]; rfl, by simp [text]⟩, ?_⟩
      rw [text, List.length_append, Nat.add_sub_cancel, List.take_left] at h
      exact (Option.some.inj h).symm
  · rintro ⟨head, block, ⟨hn, c, d, after, hf, ha, hb, hc⟩, rfl⟩
    have named : name.isEmpty = false := List.isEmpty_eq_false_iff.mpr hn
    have length : (head ++ (block ++ after)).length - after.length = (head ++ block).length := by
      simp only [List.length_append]
      omega
    simp only [body?, named, hf, ha, hc, Bool.false_eq_true, ↓reduceIte, Option.bind_eq_bind,
      Option.bind_some, length]
    rw [← List.append_assoc, List.take_left]

theorem body?_eq_none (h : ∀ head block, ¬Located source name head block) :
    body? source name = none := by
  cases found : body? source name with
  | none => rfl
  | some body =>
    obtain ⟨head, block, located, _⟩ := body?_eq_some_iff.mp found
    exact absurd located (h head block)

theorem body?_of_find?_eq_none (hf : (header name).find? source = none) :
    body? source name = none := by
  refine body?_eq_none ?_
  rintro head block ⟨_, c, d, _, hf', _⟩
  cases hf.symm.trans hf'

theorem body?_of_afterBlock_eq_none (hf : (header name).find? source = some (c, d))
    (ha : afterBlock 0 d.after = none) : body? source name = none := by
  refine body?_eq_none ?_
  rintro head block ⟨_, c', d', _, hf', ha', _⟩
  cases hf.symm.trans hf'
  cases ha.symm.trans ha'

/-- The text of a method is a part of the source it is found in. -/
theorem body?_infix (h : body? source name = some body) : body <:+: source := by
  obtain ⟨head, block, ⟨_, c, d, after, hf, _, _, hc⟩, rfl⟩ := body?_eq_some_iff.mp h
  obtain ⟨_, before, reads, _⟩ := find?_eq_some hf
  have text : source = before ++ c.after := reads.after_eq
  exact ⟨before, after, by simp [text, hc]⟩

/-- The block of a text that is found closes at its end. -/
theorem Located.exists_closes (h : Located source name head block) :
    ∃ t, block = '{' :: t ∧ Closes 0 t := by
  obtain ⟨_, c, d, after, _, ha, hb, _⟩ := h
  obtain ⟨t, hd, closes⟩ := afterBlock_eq_some ha
  refine ⟨t, List.append_cancel_right (hb.symm.trans ?_), closes⟩
  rw [hd]
  rfl

/-- What stands before the first opening brace of a text. -/
def headPart (body : List Char) : List Char := body.takeWhile (· != '{')

/-- The text from its first opening brace on. -/
def blockPart (body : List Char) : List Char := body.dropWhile (· != '{')

theorem bne_of_braceless (h : '{' ∉ head) : ∀ x ∈ head, (x != '{') = true :=
  fun _ hx => bne_iff_ne.mpr fun he => h (he ▸ hx)

theorem headPart_append (h : '{' ∉ head) : headPart (head ++ '{' :: rest) = head := by
  rw [headPart, List.takeWhile_append_of_pos (bne_of_braceless h),
    List.takeWhile_cons_of_neg (by simp), List.append_nil]

theorem blockPart_append (h : '{' ∉ head) : blockPart (head ++ '{' :: rest) = '{' :: rest := by
  rw [blockPart, List.dropWhile_append_of_pos (bne_of_braceless h),
    List.dropWhile_cons_of_neg (by simp)]

/-- The first head of the method in a text, between what stands before it and what follows its
opening brace. -/
structure FirstHead (source name before head rest : List Char) : Prop where
  split : source = before ++ (head ++ '{' :: rest)
  isHead : IsHead name head
  first : ∀ before' head' rest', source = before' ++ (head' ++ '{' :: rest') → IsHead name head' →
    before.length ≤ before'.length

theorem matches_of_isHead (hb : '{' ∉ name) (h : IsHead name head)
    (hc : c.after = head ++ '{' :: rest) : ∃ d, (header name).Matches c d ∧ d.after = rest := by
  have ahead : c.after = (head ++ ['{']) ++ rest := by simp [hc]
  obtain ⟨d, hd, hr⟩ := Cursor.exists_reads ahead
  exact ⟨d, (header_matches_iff hb).mpr ⟨head, h, hd⟩, hr⟩

theorem exists_head_of_matches (hb : '{' ∉ name) (h : (header name).Matches c d) :
    ∃ head, IsHead name head ∧ c.after = head ++ '{' :: d.after := by
  obtain ⟨head, hh, reads⟩ := (header_matches_iff hb).mp h
  exact ⟨head, hh, by simpa using reads.after_eq⟩

/-- The search for a head stops at the first one. -/
theorem find?_header_eq_some (hb : '{' ∉ name) (h : (header name).find? source = some (c, d)) :
    ∃ before head, FirstHead source name before head d.after ∧
      c.after = head ++ '{' :: d.after := by
  obtain ⟨hm, before, reads, first⟩ := find?_eq_some h
  obtain ⟨head, hh, hc⟩ := exists_head_of_matches hb hm
  refine ⟨before, head, ⟨hc ▸ reads.after_eq, hh, ?_⟩, hc⟩
  intro before' head' rest' split hh'
  by_contra hlt
  obtain ⟨c', hc', after⟩ := Cursor.exists_reads (c := .start source) split
  obtain ⟨d', hd', _⟩ := matches_of_isHead hb hh' after
  exact first before' c' hc' (Nat.lt_of_not_le hlt) d' hd'

theorem find?_header_eq_none (hb : '{' ∉ name) (h : (header name).find? source = none)
    (split : source = before ++ (head ++ '{' :: rest)) : ¬IsHead name head := by
  intro hh
  obtain ⟨c, hc, after⟩ := Cursor.exists_reads (c := .start source) split
  obtain ⟨d, hd, _⟩ := matches_of_isHead hb hh after
  exact find?_eq_none_iff.mp h before c hc d hd

/-- There is one first head at most. -/
theorem FirstHead.unique {before' head' rest' : List Char}
    (h : FirstHead source name before head rest) (h' : FirstHead source name before' head' rest') :
    before = before' ∧ head = head' ∧ rest = rest' := by
  have hlen : before.length = before'.length :=
    Nat.le_antisymm (h.first _ _ _ h'.split h'.isHead) (h'.first _ _ _ h.split h.isHead)
  obtain ⟨hbefore, hrest⟩ := List.append_inj (h.split.symm.trans h'.split) hlen
  have hhead := congrArg headPart hrest
  rw [headPart_append h.isHead.braceless, headPart_append h'.isHead.braceless] at hhead
  subst hhead
  exact ⟨hbefore, rfl, (List.cons.inj (List.append_cancel_left hrest)).2⟩

/-- Either there is a first head, or the method is not found and no head is anywhere. -/
theorem exists_first_or_none (hb : '{' ∉ name) (source : List Char) :
    (∃ before head rest, FirstHead source name before head rest) ∨
      body? source name = none ∧
        ∀ before head rest, source = before ++ (head ++ '{' :: rest) → ¬IsHead name head := by
  cases hf : (header name).find? source with
  | none =>
    exact .inr ⟨body?_of_find?_eq_none hf, fun _ _ _ split => find?_header_eq_none hb hf split⟩
  | some found =>
    obtain ⟨before, head, h, _⟩ := find?_header_eq_some (c := found.1) (d := found.2) hb hf
    exact .inl ⟨before, head, _, h⟩

/-- The text found is the first head with its block; it is not found if the block is not closed. -/
theorem body?_cases (hn : name ≠ []) (hb : '{' ∉ name)
    (h : FirstHead source name before head rest) :
    (∃ t after, rest = t ++ after ∧ Closes 0 t ∧ body? source name = some (head ++ '{' :: t)) ∨
      body? source name = none ∧ ∀ u, u <+: rest → u.count '}' ≤ u.count '{' := by
  cases hf : (header name).find? source with
  | none => exact absurd h.isHead (find?_header_eq_none hb hf h.split)
  | some found =>
    obtain ⟨c, d⟩ := found
    obtain ⟨_, _, first, hc⟩ := find?_header_eq_some hb hf
    obtain ⟨-, rfl, rfl⟩ := h.unique first
    cases ha : afterBlock 0 d.after with
    | none =>
      exact .inr ⟨body?_of_afterBlock_eq_none hf ha, fun u hu => afterBlock_eq_none ha hu⟩
    | some after =>
      obtain ⟨t, hd, closes⟩ := afterBlock_eq_some ha
      have located : Located source name head ('{' :: t) :=
        ⟨hn, c, d, after, hf, ha, by rw [hd]; rfl, by rw [hc, hd]; rfl⟩
      exact .inl ⟨t, after, hd, closes, body?_eq_some_iff.mpr ⟨head, _, located, rfl⟩⟩

/-- The text of a method is the first head of the source with the block that closes behind it. -/
theorem body?_eq_some_iff_firstHead (hn : name ≠ []) (hb : '{' ∉ name) :
    body? source name = some body ↔ ∃ before head t after,
      FirstHead source name before head (t ++ after) ∧ Closes 0 t ∧ body = head ++ '{' :: t := by
  constructor
  · intro h
    rcases exists_first_or_none hb source with ⟨before, head, rest, first⟩ | ⟨none, _⟩
    · rcases body?_cases hn hb first with ⟨t, after, rfl, closes, found⟩ | ⟨none, _⟩
      · exact ⟨before, head, t, after, first, closes, Option.some.inj (h.symm.trans found)⟩
      · cases none.symm.trans h
    · cases none.symm.trans h
  · rintro ⟨before, head, t, after, first, closes, rfl⟩
    rcases body?_cases hn hb first with ⟨t', after', same, closes', found⟩ | ⟨_, never⟩
    · rw [found, closes.eq_of_append closes' same]
    · have := never t (List.prefix_append t after)
      have := closes.total
      omega

theorem Located.unique {head' block' : List Char} (h : Located source name head block)
    (h' : Located source name head' block') : head = head' ∧ block = block' := by
  obtain ⟨_, c, d, after, hf, ha, hb, hc⟩ := h
  obtain ⟨_, c', d', after', hf', ha', hb', hc'⟩ := h'
  cases hf.symm.trans hf'
  cases ha.symm.trans ha'
  have block_eq := List.append_cancel_right (hb.symm.trans hb')
  subst block_eq
  exact ⟨List.append_cancel_right (hc.symm.trans hc'), rfl⟩

/-- Without a brace in the name, the brace from which braces are counted is the first one found. -/
theorem Located.braceless (hb : '{' ∉ name) (h : Located source name head block) : '{' ∉ head := by
  obtain ⟨t, rfl, _⟩ := h.exists_closes
  obtain ⟨_, c, d, after, hf, _, hd, hc⟩ := h
  obtain ⟨_, head', first, hc'⟩ := find?_header_eq_some hb hf
  rw [hd] at hc'
  rw [List.append_cancel_right (hc.symm.trans hc')]
  exact first.isHead.braceless

/-- Without a brace in the name, the text is cut at its first opening brace. -/
theorem Located.parts (hb : '{' ∉ name) (h : Located source name head block) :
    headPart (head ++ block) = head ∧ blockPart (head ++ block) = block := by
  obtain ⟨t, rfl, _⟩ := h.exists_closes
  exact ⟨headPart_append (h.braceless hb), blockPart_append (h.braceless hb)⟩

end AppSurface.Locator
