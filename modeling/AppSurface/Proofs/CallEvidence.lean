import AppSurface.Proofs.CallerSearch
import AppSurface.Proofs.MethodHead
import AppSurface.Proofs.Signature

namespace AppSurface

open Cursor (Reads)
open Pattern

variable {c d : Cursor} {name s source body : List Char} {k : CallMatcher} {t : String}

theorem matches_qualifiedCall_iff : (qualifiedCall name).Matches c d ↔
    Anchor.wordEdge.holds c = true ∧ ∃ u b, Reads c (u ++ ('.' :: (name ++ (b ++ ['('])))) d ∧
      u ≠ [] ∧ (∀ x ∈ u, Unicode.isWord x = true) ∧ ∀ x ∈ b, Unicode.isBlank x = true := by
  simp only [qualifiedCall, seqs, Matches, matches_plus_set_iff, matches_char_iff,
    matches_literal_iff, matches_star_set_iff, CharSet.contains]
  constructor
  · rintro ⟨_, ⟨edge, rfl⟩, _, ⟨u, hu, word, hne⟩, _, hdot, _, hn, _, ⟨b, hb, blank⟩, hp⟩
    exact ⟨edge, u, b, by simpa using hu.append (hdot.append (hn.append (hb.append hp))), hne, word,
      blank⟩
  · rintro ⟨edge, u, b, reads, hne, word, blank⟩
    have parts : Reads c (u ++ (['.'] ++ (name ++ (b ++ ['('])))) d := by simpa using reads
    obtain ⟨_, hu, parts⟩ := parts.of_append
    obtain ⟨_, hdot, parts⟩ := parts.of_append
    obtain ⟨_, hn, parts⟩ := parts.of_append
    obtain ⟨_, hb, hp⟩ := parts.of_append
    exact ⟨c, ⟨edge, rfl⟩, _, ⟨u, hu, word, hne⟩, _, hdot, _, hn, _, ⟨b, hb, blank⟩, hp⟩

/-- A call on a receiver spells the name. -/
theorem infix_of_qualifiedCall (h : (qualifiedCall name).matchesIn s = true) : name <:+: s := by
  obtain ⟨w, c, hw, d, hm⟩ := matchesIn_iff.mp h
  obtain ⟨_, u, b, reads, _⟩ := matches_qualifiedCall_iff.mp hm
  have text : s = w ++ c.after := hw.after_eq
  rw [text, reads.after_eq]
  exact ⟨w ++ (u ++ ['.']), b ++ ('(' :: d.after), by simp⟩

theorem CallMatcher.accepts_iff : k.accepts body = true ↔
    k.method.toList ++ ['('] <:+: body ∨ (qualifiedCall k.method.toList).matchesIn body = true ∨
      ∃ p ∈ k.evidence, p.matchesIn body = true := by
  simp only [accepts, Bool.or_eq_true, Text.occursIn_iff, List.any_eq_true, or_assoc]

theorem CallDetector.evidence_eq {d : CallDetector} (h : d.matcher? t = some k) : k.evidence =
    (d.rules.filter fun r => r.method.matchesIn t.toList).map CallRule.evidence := by
  unfold matcher? at h
  split at h <;> cases h
  rfl

theorem CallDetector.mem_evidence {d : CallDetector} (h : d.matcher? t = some k) {p : Pattern} :
    p ∈ k.evidence ↔ ∃ r ∈ d.rules, r.method.matchesIn t.toList = true ∧ r.evidence = p := by
  simp [evidence_eq h, and_assoc]

theorem CallDetector.hasCall_iff {d : CallDetector} {source caller x : String}
    (ht : '.' ∉ t.toList) : d.hasCall source caller (x ++ "." ++ t) = true ↔
      ∃ k, d.matcher? t = some k ∧
        ∃ body, Locator.body? source.toList caller.toList = some body ∧ k.accepts body = true := by
  rw [hasCall, methodPart_append_dot x t ht]
  cases d.matcher? t <;> simp [CallMatcher.calledBy_iff]

theorem exists_ok_of_isOk {ε α : Type} {e : Except ε α} (h : e.isOk = true) : ∃ a, e = .ok a := by
  cases e with
  | error => cases h
  | ok a => exact ⟨a, rfl⟩

/-- The detector of the built-in confirming rules. -/
def CallDetector.builtIn : CallDetector :=
  (ofConfirmers Confirmer.builtIn).toOption.getD ⟨[]⟩

theorem CallDetector.ofConfirmers_builtIn :
    ofConfirmers Confirmer.builtIn = .ok builtIn := by
  have readable : (ofConfirmers Confirmer.builtIn).isOk = true := by decide +kernel
  obtain ⟨d, hd⟩ := exists_ok_of_isOk readable
  rw [builtIn, hd]
  rfl

namespace Corpus

/-- The search lists exactly the methods with a call in a class that mentions the name. A call in a
class that does not mention it is one that a confirming rule alone sees. -/
theorem mem_callersOf_iff_hasCall (c : Corpus) (d : CallDetector) (cls caller x : String)
    (ht : '.' ∉ t.toList) :
    (⟨cls, caller⟩ ∈ c.callersOf d t ↔ ∃ u ∈ c.classes, u.fullName = cls ∧ caller ∈ u.methods ∧
      Text.contains u.source t = true ∧ d.hasCall u.source caller (x ++ "." ++ t) = true) ∧
    ∀ source, d.hasCall source caller (x ++ "." ++ t) = true → Text.contains source t = false →
      ∃ body, Locator.body? source.toList caller.toList = some body ∧
        ¬t.toList ++ ['('] <:+: body ∧ (qualifiedCall t.toList).matchesIn body = false ∧
        ∃ r ∈ d.rules, r.method.matchesIn t.toList = true ∧ r.evidence.matchesIn body = true := by
  constructor
  · simp only [mem_callersOf, CallDetector.hasCall_iff ht, CallMatcher.Finds]
    constructor
    · rintro ⟨k, hk, u, hu, _, ⟨hm, hc, found⟩, he⟩
      cases he
      rw [CallDetector.matcher?_method hk] at hc
      exact ⟨u, hu, rfl, hm, hc, k, hk, found⟩
    · rintro ⟨u, hu, rfl, hm, hc, k, hk, found⟩
      rw [← CallDetector.matcher?_method hk] at hc
      exact ⟨k, hk, u, hu, caller, ⟨hm, hc, found⟩, rfl⟩
  · intro source call unnamed
    obtain ⟨k, hk, body, hb, accepted⟩ := (CallDetector.hasCall_iff ht).mp call
    have foreign : ¬t.toList <:+: body := by
      intro h
      have named := Text.occursIn_iff.mpr (h.trans (Locator.body?_infix hb))
      rw [Text.contains, named] at unnamed
      cases unnamed
    rw [CallMatcher.accepts_iff, CallDetector.matcher?_method hk] at accepted
    have plain : ¬t.toList ++ ['('] <:+: body := fun h =>
      foreign ((List.prefix_append _ _).isInfix.trans h)
    have qualified : ¬(qualifiedCall t.toList).matchesIn body = true := fun h =>
      foreign (infix_of_qualifiedCall h)
    obtain ⟨p, hp, hm⟩ := (accepted.resolve_left plain).resolve_left qualified
    obtain ⟨r, hr, applies, rfl⟩ := (CallDetector.mem_evidence hk).mp hp
    exact ⟨body, hb, plain, Bool.not_eq_true _ ▸ qualified, r, hr, applies, hm⟩

/-- A method that calls a web view by a spelling that only the built-in confirming rule knows. -/
def shouting : Corpus :=
  ⟨[⟨"A", "A", "", ["go"], [], "public void go() { webview.LOADURL(page); }"⟩], []⟩

theorem shouting_hasCall : CallDetector.builtIn.hasCall
    "public void go() { webview.LOADURL(page); }" "go" "X.loadUrl" = true := by decide +kernel

theorem shouting_confirmed_only :
    let source := "public void go() { webview.LOADURL(page); }"
    '.' ∉ "loadUrl".toList ∧
      CallDetector.builtIn.hasCall source "go" ("X" ++ "." ++ "loadUrl") = true ∧
      Text.contains source "loadUrl" = false ∧
      ∃ body, Locator.body? source.toList "go".toList = some body ∧
        ¬"loadUrl".toList ++ ['('] <:+: body ∧
        (qualifiedCall "loadUrl".toList).matchesIn body = false ∧
        ∃ r ∈ CallDetector.builtIn.rules, r.method.matchesIn "loadUrl".toList = true ∧
          r.evidence.matchesIn body = true := by
  have undotted : '.' ∉ "loadUrl".toList := by decide
  have unnamed : Text.contains "public void go() { webview.LOADURL(page); }" "loadUrl" = false := by
    decide +kernel
  have confirmed := (mem_callersOf_iff_hasCall shouting .builtIn "A" "go" "X" undotted).2
  exact ⟨undotted, shouting_hasCall, unnamed, confirmed _ shouting_hasCall unnamed⟩

/-- What the detector takes for a call, the search need not list: a class that does not spell the
name is passed over. -/
theorem callersOf_not_hasCall : ¬∀ (table : List Confirmer) (d : CallDetector),
    CallDetector.ofConfirmers table = .ok d → ∀ (c : Corpus), ∀ u ∈ c.classes,
    ∀ caller ∈ u.methods, ∀ t : String, t ≠ "" → '.' ∉ t.toList →
      (⟨u.fullName, caller⟩ ∈ c.callersOf d t ↔ ∃ v ∈ c.classes, v.fullName = u.fullName ∧
        caller ∈ v.methods ∧ d.hasCall v.source caller ("X." ++ t) = true) := by
  intro h
  have listed := (h _ _ CallDetector.ofConfirmers_builtIn shouting _ List.mem_cons_self "go"
    List.mem_cons_self "loadUrl" (by decide) (by decide)).mpr
      ⟨_, List.mem_cons_self, rfl, List.mem_cons_self, shouting_hasCall⟩
  have missed : ¬⟨"A", "go"⟩ ∈ shouting.callersOf .builtIn "loadUrl" := by decide +kernel
  exact missed listed

end Corpus

end AppSurface
