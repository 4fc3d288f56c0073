import AppSurface.Proofs.CallSpelling
import AppSurface.Proofs.PatternGroups

namespace AppSurface

open Cursor (Reads)

variable {read : PatternReader} {c : Confirmer} {r : CallRule} {table : List Confirmer}
  {d : CallDetector} {p q : Pattern} {s : List Char} {t : String}

namespace Pattern

/-- The pattern matches the text from its first to its last character. -/
def MatchesWhole (p : Pattern) (s : List Char) : Prop := ∃ d, p.Matches (.start s) d ∧ d.after = []

theorem matchesIn_ends_iff :
    (seqs [.anchor .textStart, p, .anchor .textEnd]).matchesIn s = true ↔ p.MatchesWhole s := by
  rw [matchesIn_iff]
  constructor
  · rintro ⟨w, c, hw, _, _, ⟨first, rfl⟩, d, hm, last, rfl⟩
    have start : w = [] := by
      have before : c.before = w.getLast?.or none := hw.before_eq
      simp only [Anchor.holds, Option.isNone_iff_eq_none, before, Option.or_none] at first
      exact List.getLast?_eq_none_iff.mp first
    subst start
    cases hw
    exact ⟨d, hm, List.isEmpty_iff.mp last⟩
  · rintro ⟨d, hm, last⟩
    exact ⟨[], _, .nil _, d, _, ⟨rfl, rfl⟩, d, hm, List.isEmpty_iff.mpr last, rfl⟩

/-- Whatever is an expression of its own means the same between the anchors. -/
def Composes (read : PatternReader) : Prop :=
  ∀ text p q, read text = some p → read (anchored text) = some q →
    ∀ c d, q.Matches c d ↔ (seqs [.anchor .textStart, p, .anchor .textEnd]).Matches c d

theorem ofText?_composes : Composes ofText? := by
  intro text p q own around c d
  rw [ofText?_anchored own] at around
  cases around
  rfl

/-- Patterns that match between the same places match in the same texts. -/
theorem matchesIn_congr (h : ∀ c d, p.Matches c d ↔ q.Matches c d) :
    p.matchesIn s = true ↔ q.matchesIn s = true := by
  simp only [matchesIn_iff, h]

end Pattern

open Pattern

namespace Confirmer

theorem rule?_eq_some_iff : c.rule? read = some r ↔
    read (anchored c.method.toList) = some r.method ∧
      read c.pattern.toList = some r.evidence := by
  simp only [rule?, anchored, Option.bind_eq_bind, Option.bind_eq_some_iff, Option.some.injEq]
  constructor
  · rintro ⟨_, method, _, evidence, rfl⟩
    exact ⟨method, evidence⟩
  · rintro ⟨method, evidence⟩
    exact ⟨_, method, _, evidence, rfl⟩

/-- A rule is refused if its method text cannot be read between the anchors, or its other text. -/
theorem rule?_ne_none_iff : c.rule? read ≠ none ↔
    (read (anchored c.method.toList)).isSome = true ∧ (read c.pattern.toList).isSome = true := by
  simp only [Option.ne_none_iff_exists', rule?_eq_some_iff, Option.isSome_iff_exists]
  constructor
  · rintro ⟨r, method, evidence⟩
    exact ⟨⟨_, method⟩, _, evidence⟩
  · rintro ⟨⟨p, method⟩, q, evidence⟩
    exact ⟨⟨p, q⟩, method, evidence⟩

theorem appliesTo_of_rule? (h : c.rule? read = some r) :
    c.appliesTo t read = r.method.matchesIn t.toList := by
  simp [appliesTo, h]

/-- A rule that is an expression of its own applies to the names that it matches as a whole. -/
theorem appliesTo_iff_matchesWhole (composes : Composes read) (h : c.rule? read = some r)
    (own : read c.method.toList = some p) :
    c.appliesTo t read = true ↔ p.MatchesWhole t.toList := by
  have around := composes _ _ _ own (rule?_eq_some_iff.mp h).1
  rw [appliesTo_of_rule? h, matchesIn_congr around, matchesIn_ends_iff]

end Confirmer

namespace CallDetector

/-- The evidence for a method are the patterns of the rules that apply to it, in the order of the
table. -/
theorem map_evidence {k : CallMatcher} (h : ofConfirmers table read = .ok d)
    (hk : d.matcher? t = some k) : k.evidence.map some =
      (table.filter fun c => c.appliesTo t read).map fun c => read c.pattern.toList := by
  have each : ∀ c ∈ table, (c.rule? read).map CallRule.evidence = read c.pattern.toList := by
    intro c hc
    obtain ⟨r, hr⟩ := Option.ne_none_iff_exists'.mp (exists_ofConfirmers_iff.mp ⟨d, h⟩ c hc)
    rw [hr, Option.map_some, (Confirmer.rule?_eq_some_iff.mp hr).2]
  calc k.evidence.map some
      = ((d.rules.map some).filter fun o => o.any fun r => r.method.matchesIn t.toList).map
          (Option.map CallRule.evidence) := by
        rw [evidence_eq hk, List.filter_map, List.map_map, List.map_map]
        rfl
    _ = (table.filter fun c => c.appliesTo t read).map fun c =>
          (c.rule? read).map CallRule.evidence := by
        rw [map_rules h, List.filter_map, List.map_map]
        rfl
    _ = (table.filter fun c => c.appliesTo t read).map fun c => read c.pattern.toList :=
        List.map_congr_left fun c hc => each c (List.mem_of_mem_filter hc)

/-- A table is accepted if each method text can be read between the anchors and each other text by
itself. Its rules apply to the names in which the anchored expression matches; where the method text
is an expression of its own, these are the names that it matches from end to end. The evidence for a
name are the patterns of the rules that apply to it. -/
theorem rules_match_whole_names (composes : Composes read) (table : List Confirmer) :
    ((∃ d, ofConfirmers table read = .ok d) ↔ ∀ c ∈ table,
      (read (anchored c.method.toList)).isSome = true ∧ (read c.pattern.toList).isSome = true) ∧
    ∀ d, ofConfirmers table read = .ok d →
      (∀ c ∈ table,
        (∃ q, read (anchored c.method.toList) = some q ∧
          ∀ t, c.appliesTo t read = true ↔ q.matchesIn t.toList = true) ∧
        ∀ p, read c.method.toList = some p →
          ∀ t, c.appliesTo t read = true ↔ p.MatchesWhole t.toList) ∧
      ∀ t, t ≠ "" → ∃ k, d.matcher? t = some k ∧ k.evidence.map some =
        (table.filter fun c => c.appliesTo t read).map fun c => read c.pattern.toList := by
  refine ⟨?_, fun d h => ⟨fun c hc => ?_, fun t ht => ?_⟩⟩
  · rw [exists_ofConfirmers_iff]
    exact forall₂_congr fun c _ => Confirmer.rule?_ne_none_iff
  · obtain ⟨r, hr⟩ := Option.ne_none_iff_exists'.mp (exists_ofConfirmers_iff.mp ⟨d, h⟩ c hc)
    refine ⟨⟨r.method, (Confirmer.rule?_eq_some_iff.mp hr).1, fun t => ?_⟩, fun p own t =>
      Confirmer.appliesTo_iff_matchesWhole composes hr own⟩
    rw [Confirmer.appliesTo_of_rule? hr]
  · obtain ⟨k, hk⟩ := d.exists_matcher ht
    exact ⟨k, hk, map_evidence h hk⟩

/-- A rule for two names. -/
def startingRule : Confirmer := ⟨"exec|start", "exec"⟩

/-- A rule that closes the group around it. It applies to all that starts with one name or ends
with the other. -/
def looseRule : Confirmer := ⟨"load)|(?:Url", "load"⟩

theorem ofConfirmers_looseRule : ∃ d, ofConfirmers [startingRule, looseRule] = .ok d :=
  exists_ok_of_isOk (by decide +kernel)

theorem looseRule_evidence : Composes ofText? ∧
    ∃ d, ofConfirmers [startingRule, looseRule] = .ok d ∧
    (ofText? (anchored looseRule.method.toList)).isSome = true ∧
    ofText? looseRule.method.toList = none ∧
    (∃ p, ofText? startingRule.method.toList = some p ∧ p.MatchesWhole "start".toList ∧
      ¬p.MatchesWhole "starter".toList) ∧
    "loader" ≠ "" ∧ ∃ k, d.matcher? "loader" = some k ∧
      k.evidence.map some = [ofText? "load".toList] := by
  obtain ⟨accepted, rules⟩ := rules_match_whole_names ofText?_composes [startingRule, looseRule]
  obtain ⟨d, hd⟩ := ofConfirmers_looseRule
  obtain ⟨names, evidence⟩ := rules d hd
  have around := (accepted.mp ⟨d, hd⟩ looseRule (by simp)).1
  have refused : (ofText? looseRule.method.toList).isNone = true := by decide +kernel
  obtain ⟨p, own⟩ : ∃ p, ofText? startingRule.method.toList = some p :=
    Option.isSome_iff_exists.mp (by decide +kernel)
  have whole := (names startingRule (by simp)).2 p own
  have starts : startingRule.appliesTo "start" = true := by decide +kernel
  have passes : startingRule.appliesTo "starter" = false := by decide +kernel
  have applied : ([startingRule, looseRule].filter fun c => c.appliesTo "loader") =
      [looseRule] := by decide +kernel
  obtain ⟨k, hk, he⟩ := evidence "loader" (by decide)
  rw [applied] at he
  refine ⟨ofText?_composes, d, hd, around, Option.isNone_iff_eq_none.mp refused,
    ⟨p, own, (whole _).mp starts, ?_⟩, by decide, k, hk, he⟩
  rw [← whole, passes]
  exact Bool.false_ne_true

/-- An accepted rule need not be a pattern of its own. -/
theorem rules_not_always_whole : ¬∀ (table : List Confirmer) (d : CallDetector),
    ofConfirmers table = .ok d → ∀ c ∈ table, ∃ p, ofText? c.method.toList = some p ∧
      ∀ t, t ≠ "" → (c.appliesTo t = true ↔ p.MatchesWhole t.toList) := by
  intro h
  obtain ⟨d, hd⟩ := ofConfirmers_looseRule
  obtain ⟨p, own, _⟩ := h _ _ hd looseRule (by simp)
  have refused : (ofText? looseRule.method.toList).isNone = true := by decide +kernel
  rw [own] at refused
  cases refused

end CallDetector

end AppSurface
