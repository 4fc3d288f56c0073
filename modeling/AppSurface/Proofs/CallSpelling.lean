import AppSurface.Proofs.CallEvidence
import Mathlib.Data.List.DropRight

namespace AppSurface

open Cursor (Reads)
open Pattern

variable {name body : List Char} {x : Char} {c : Cursor} {k : CallMatcher} {method : String}
  {table : List Confirmer} {read : PatternReader} {d : CallDetector} {r : CallRule}

/-- The name stands directly in front of an opening parenthesis, or behind a dot and a character of
a word, with nothing but blanks in front of the parenthesis. -/
def SpellsCall (name text : List Char) : Prop :=
  ∃ before after, text = before ++ (name ++ after) ∧
    (['('] <+: after ∨
      (∃ u x, before = u ++ [x, '.'] ∧ Unicode.isWord x = true) ∧
        ∃ b t, after = b ++ '(' :: t ∧ ∀ y ∈ b, Unicode.isBlank y = true)

/-- Whether a confirming rule applies to a method, by the pattern for its name. -/
def Confirmer.appliesTo (c : Confirmer) (method : String)
    (read : PatternReader := Pattern.ofText?) : Bool :=
  (c.rule? read).any fun r => r.method.matchesIn method.toList

/-- A character of a word ends a run of such characters that starts at an edge. -/
theorem exists_wordRun (u : List Char) (hx : Unicode.isWord x = true) :
    ∃ v w, u ++ [x] = v ++ w ∧ w ≠ [] ∧ (∀ y ∈ w, Unicode.isWord y = true) ∧
      ∀ y ∈ v.getLast?, Unicode.isWord y = false := by
  refine ⟨u.rdropWhile Unicode.isWord, u.rtakeWhile Unicode.isWord ++ [x], ?_, by simp, ?_, ?_⟩
  · rw [← List.append_assoc, List.rdropWhile_append_rtakeWhile]
  · intro y hy
    rcases List.mem_append.mp hy with hy | hy
    · exact List.mem_rtakeWhile_imp hy
    · rwa [List.mem_singleton.mp hy]
  · intro y hy
    obtain ⟨hne, rfl⟩ := List.mem_getLast?_eq_getLast hy
    exact Bool.not_eq_true _ ▸ List.rdropWhile_last_not _ _ hne

theorem wordEdge_holds (hw : ∀ y ∈ c.before, Unicode.isWord y = false) (ha : c.after.head? = some x)
    (hx : Unicode.isWord x = true) : Anchor.wordEdge.holds c = true := by
  have left : c.before.any Unicode.isWord = false := by
    cases hb : c.before with
    | none => rfl
    | some y => exact hw y hb
  simp [Anchor.holds, left, ha, hx]

/-- A search for a call on a receiver comes down to the characters next to the name, since the
receiver can be taken from the start of its last word. -/
theorem matchesIn_qualifiedCall_iff : (qualifiedCall name).matchesIn body = true ↔
    ∃ u x b t, body = u ++ x :: '.' :: (name ++ (b ++ '(' :: t)) ∧ Unicode.isWord x = true ∧
      ∀ y ∈ b, Unicode.isBlank y = true := by
  rw [matchesIn_iff]
  constructor
  · rintro ⟨v, c, hv, d, hm⟩
    obtain ⟨_, w, b, reads, hne, word, blank⟩ := matches_qualifiedCall_iff.mp hm
    have text : body = v ++ c.after := hv.after_eq
    refine ⟨v ++ w.dropLast, w.getLast hne, b, d.after, ?_, word _ (List.getLast_mem hne), blank⟩
    rw [text, reads.after_eq]
    conv_lhs => rw [← List.dropLast_append_getLast hne]
    simp
  · rintro ⟨u, x, b, t, text, hx, blank⟩
    obtain ⟨v, w, split, hne, word, edge⟩ := exists_wordRun u hx
    have whole : body = v ++ ((w ++ ('.' :: (name ++ (b ++ ['('])))) ++ t) := by
      have receiver : body = (u ++ [x]) ++ ('.' :: (name ++ (b ++ '(' :: t))) := by simp [text]
      rw [receiver, split]
      simp
    obtain ⟨c, hv, after⟩ := Cursor.exists_reads (c := .start body) whole
    obtain ⟨d, hw, _⟩ := Cursor.exists_reads after
    have before : c.before = v.getLast? := hv.before_eq.trans (Option.or_none ..)
    have first : c.after.head? = some (w.head hne) := by
      rw [after, List.append_assoc, List.head?_append_of_ne_nil _ hne, List.head?_eq_some_head hne]
    exact ⟨v, c, hv, d, matches_qualifiedCall_iff.mpr
      ⟨wordEdge_holds (before ▸ edge) first (word _ (List.head_mem hne)), w, b, hw, hne, word,
        blank⟩⟩

/-- What the two tests for the spelling of a call accept. -/
theorem spellsCall_iff : SpellsCall name body ↔
    name ++ ['('] <:+: body ∨ (qualifiedCall name).matchesIn body = true := by
  rw [matchesIn_qualifiedCall_iff]
  constructor
  · rintro ⟨before, after, rfl, ⟨t, rfl⟩ | ⟨⟨u, x, rfl, hx⟩, b, t, rfl, blank⟩⟩
    · exact .inl ⟨before, t, by simp⟩
    · exact .inr ⟨u, x, b, t, by simp, hx, blank⟩
  · rintro (⟨before, t, rfl⟩ | ⟨u, x, b, t, rfl, hx, blank⟩)
    · exact ⟨before, '(' :: t, by simp, .inl ⟨t, rfl⟩⟩
    · exact ⟨u ++ [x, '.'], b ++ '(' :: t, by simp, .inr ⟨⟨u, x, rfl, hx⟩, b, t, rfl, blank⟩⟩

theorem CallMatcher.accepts_iff_spellsCall : k.accepts body = true ↔
    SpellsCall k.method.toList body ∨ ∃ p ∈ k.evidence, p.matchesIn body = true := by
  rw [accepts_iff, spellsCall_iff, or_assoc]

namespace CallDetector

/-- The rules in force are those of the table, read one by one. -/
theorem map_rules (h : ofConfirmers table read = .ok d) :
    d.rules.map some = table.map fun c => c.rule? read := by
  induction table generalizing d with
  | nil =>
    cases h
    rfl
  | cons c cs ih =>
    unfold ofConfirmers at h
    split at h
    next => cases h
    next rule hr =>
      cases hs : ofConfirmers cs read with
      | error e =>
        rw [hs] at h
        cases h
      | ok rest =>
        rw [hs] at h
        cases h
        rw [List.map_cons, List.map_cons, hr, ih hs]

theorem mem_rules (h : ofConfirmers table read = .ok d) :
    r ∈ d.rules ↔ ∃ c ∈ table, c.rule? read = some r := by
  rw [← List.mem_map, ← map_rules h]
  simp

/-- A table is refused exactly if one of its rules cannot be read. -/
theorem exists_ofConfirmers_iff : (∃ d, ofConfirmers table read = .ok d) ↔
    ∀ c ∈ table, c.rule? read ≠ none := by
  induction table with
  | nil => exact ⟨fun _ c hc => absurd hc List.not_mem_nil, fun _ => ⟨_, rfl⟩⟩
  | cons c cs ih =>
    rw [List.forall_mem_cons, ← ih, ofConfirmers]
    cases c.rule? read with
    | none => simp
    | some r => cases ofConfirmers cs read <;> simp [bind, Except.bind]

/-- A text passes for a call by the spelling of a call or by a rule of the table that applies to the
method. -/
theorem accepts_matcher_iff (h : ofConfirmers table read = .ok d) (hk : d.matcher? method = some k) :
    k.accepts body = true ↔ SpellsCall method.toList body ∨
      ∃ c ∈ table, c.appliesTo method read = true ∧ ∃ r, c.rule? read = some r ∧
        r.evidence.matchesIn body = true := by
  rw [CallMatcher.accepts_iff_spellsCall, matcher?_method hk]
  refine or_congr_right ?_
  constructor
  · rintro ⟨p, hp, found⟩
    obtain ⟨r, hr, applies, rfl⟩ := (mem_evidence hk).mp hp
    obtain ⟨c, hc, hr⟩ := (mem_rules h).mp hr
    exact ⟨c, hc, by simp [Confirmer.appliesTo, hr, applies], r, hr, found⟩
  · rintro ⟨c, hc, applies, r, hr, found⟩
    refine ⟨r.evidence, (mem_evidence hk).mpr ⟨r, (mem_rules h).mpr ⟨c, hc, hr⟩, ?_, rfl⟩, found⟩
    simpa [Confirmer.appliesTo, hr] using applies

/-- Every method with a name has a matcher. If no rule of the table applies to the method, it
accepts exactly the texts that spell a call. A table with further rules accepts all that was
accepted. -/
theorem matcher_accepts_calls (h : ofConfirmers table read = .ok d) (hm : method ≠ "") :
    ∃ k, d.matcher? method = some k ∧
      ((∀ c ∈ table, c.appliesTo method read = false) →
        ∀ body, k.accepts body = true ↔ SpellsCall method.toList body) ∧
      ∀ more d', table ⊆ more → ofConfirmers more read = .ok d' →
        ∃ k', d'.matcher? method = some k' ∧
          ∀ body, k.accepts body = true → k'.accepts body = true := by
  obtain ⟨k, hk⟩ := d.exists_matcher hm
  refine ⟨k, hk, ?_, ?_⟩
  · intro none body
    rw [accepts_matcher_iff h hk, or_iff_left]
    rintro ⟨c, hc, applies, _⟩
    rw [none c hc] at applies
    cases applies
  · intro more d' added h'
    obtain ⟨k', hk'⟩ := d'.exists_matcher hm
    refine ⟨k', hk', fun body accepted => (accepts_matcher_iff h' hk').mpr ?_⟩
    refine ((accepts_matcher_iff h hk).mp accepted).imp_right ?_
    rintro ⟨c, hc, found⟩
    exact ⟨c, added hc, found⟩

/-- The built-in rules with one for methods that upload. -/
def uploadRules : List Confirmer := Confirmer.builtIn ++ [⟨"up\\w*", "\\.send\\s*\\("⟩]

theorem upload_call_accepted :
    let body := "repo.upload  ();".toList
    ofConfirmers Confirmer.builtIn = .ok builtIn ∧ "upload" ≠ "" ∧
      (∀ c ∈ Confirmer.builtIn, c.appliesTo "upload" = false) ∧ Confirmer.builtIn ⊆ uploadRules ∧
      ∃ k, builtIn.matcher? "upload" = some k ∧
        (k.accepts body = true ↔ SpellsCall "upload".toList body) ∧
        SpellsCall "upload".toList body ∧
        ∃ d' k', ofConfirmers uploadRules = .ok d' ∧ d'.matcher? "upload" = some k' ∧
          k'.accepts body = true := by
  intro body
  have foreign : ∀ c ∈ Confirmer.builtIn, c.appliesTo "upload" = false := by decide +kernel
  have added : Confirmer.builtIn ⊆ uploadRules := List.subset_append_left _ _
  have blanks : "  ".toList.all Unicode.isBlank = true := by decide
  have spelled : SpellsCall "upload".toList body :=
    ⟨"repo.".toList, "  ();".toList, by decide, .inr ⟨⟨"rep".toList, 'o', by decide, by decide⟩,
      "  ".toList, ");".toList, by decide, List.all_eq_true.mp blanks⟩⟩
  have readable : (ofConfirmers uploadRules).isOk = true := by decide +kernel
  have named : "upload" ≠ "" := by decide
  obtain ⟨k, hk, calls, grows⟩ := matcher_accepts_calls ofConfirmers_builtIn named
  obtain ⟨d', hd⟩ := exists_ok_of_isOk readable
  obtain ⟨k', hk', kept⟩ := grows _ _ added hd
  exact ⟨ofConfirmers_builtIn, named, foreign, added, k, hk, calls foreign body, spelled, d', k',
    hd, hk', kept body ((calls foreign body).mpr spelled)⟩

end CallDetector

end AppSurface
