import AppSurface.Targets
import Mathlib.Data.Finset.Card
import Mathlib.Data.List.Sort

namespace AppSurface

variable {α : Type} [BEq α] [LawfulBEq α] {query name : String} {limit : Nat}

theorem nodup_eraseDups : ∀ l : List α, l.eraseDups.Nodup
  | [] => List.nodup_nil
  | x :: l => by
    rw [List.eraseDups_cons, List.nodup_cons]
    exact ⟨by simp [List.mem_eraseDups], nodup_eraseDups (l.filter fun y => !y == x)⟩
termination_by l => l.length
decreasing_by exact Nat.lt_succ_of_le (List.length_filter_le _ _)

/-- What is left of the entries of a kind stands in the order in which these first appear, whatever
else the list holds. -/
theorem pairwise_idxOf_eraseDups (p : α → Bool) (l : List α) :
    (l.filter p).eraseDups.Pairwise fun a b => l.idxOf a < l.idxOf b := by
  induction l generalizing p with
  | nil => exact .nil
  | cons x l ih =>
    -- for entries other than the first, every place is one further
    have behind {p : α → Bool} (other : p x = false) :
        (l.filter p).eraseDups.Pairwise fun a b => (x :: l).idxOf a < (x :: l).idxOf b := by
      have ne {a : α} (ha : a ∈ (l.filter p).eraseDups) : x ≠ a := by
        rintro rfl
        rw [List.mem_eraseDups, List.mem_filter, other] at ha
        exact Bool.false_ne_true ha.2
      refine (ih p).imp_of_mem fun ha hb before => ?_
      rw [List.idxOf_cons_ne _ (ne ha), List.idxOf_cons_ne _ (ne hb)]
      exact Nat.succ_lt_succ before
    cases first : p x with
    | false => simpa [List.filter_cons, first] using behind first
    | true =>
      rw [List.filter_cons, if_pos first, List.eraseDups_cons, List.filter_filter]
      refine .cons (fun b hb => ?_) (behind (by simp))
      have ne : x ≠ b := by
        rintro rfl
        simp [List.mem_eraseDups] at hb
      rw [List.idxOf_cons_self, List.idxOf_cons_ne _ ne]
      exact Nat.succ_pos _

/-- What is collected behind the names kept so far: of the similar names that are not among them the
first ones, each once, up to the limit. -/
theorem similarAmong_eq (query : String) (limit : Nat) (kept names : List String) :
    similarAmong query limit kept names = kept ++
      (((names.filter (Text.containsIgnoringCase · query)).removeAll kept).eraseDups.take
        (limit - kept.length)) := by
  induction names generalizing kept with
  | nil => simp [similarAmong]
  | cons name names ih =>
    unfold similarAmong
    by_cases full : limit ≤ kept.length
    · simp [full, Nat.sub_eq_zero_of_le full]
    · rw [if_neg full]
      by_cases fresh : Text.containsIgnoringCase name query = true ∧ kept.contains name = false
      · obtain ⟨similar, new⟩ := fresh
        have room : limit - kept.length = (limit - (kept ++ [name]).length) + 1 := by
          rw [List.length_append, List.length_singleton]
          omega
        have others : ∀ l : List String, l.removeAll (kept ++ [name]) =
            (l.removeAll kept).filter fun y => !y == name := by
          intro l
          simp only [List.removeAll, List.filter_filter]
          refine List.filter_congr fun y _ => ?_
          simp [Bool.and_comm, Bool.beq_eq_decide_eq]
        rw [if_pos (by rw [similar, new]; rfl), ih, room, List.filter_cons, if_pos similar,
          List.cons_removeAll, if_pos new, others, List.eraseDups_cons, List.take_succ_cons,
          List.append_assoc, List.singleton_append]
      · have skipped : ((name :: names).filter (Text.containsIgnoringCase · query)).removeAll kept =
            (names.filter (Text.containsIgnoringCase · query)).removeAll kept := by
          by_cases similar : Text.containsIgnoringCase name query = true
          · have old : ¬kept.contains name = false := fun new => fresh ⟨similar, new⟩
            rw [List.filter_cons, if_pos similar, List.cons_removeAll, if_neg old]
          · rw [List.filter_cons, if_neg similar]
        rw [if_neg (by simpa using fresh), ih, skipped]

namespace Corpus

variable {c : Corpus}

/-- The names of the listed methods, overloads repeated. -/
def methodNames (c : Corpus) : List String := c.methods.map (·.methodName)

/-- The names that are similar to a query, as they would be suggested without a limit. -/
def similarNames (c : Corpus) (query : String) : List String :=
  (c.methodNames.filter (Text.containsIgnoringCase · query)).eraseDups

theorem mem_similarNames_iff : name ∈ c.similarNames query ↔
    name ∈ c.methodNames ∧ Text.containsIgnoringCase name query = true := by
  rw [similarNames, List.mem_eraseDups, List.mem_filter]

/-- The names suggested are the first of the similar names, each once. -/
theorem similarMethods_eq (c : Corpus) (query : String) (limit : Nat) :
    c.similarMethods query limit = (c.similarNames query).take limit := by
  rw [similarMethods, similarAmong_eq]
  simp [List.removeAll, methodNames, similarNames]

theorem mem_methodNames_of_similar (h : name ∈ c.similarMethods query limit) :
    name ∈ c.methodNames := by
  rw [similarMethods_eq] at h
  exact (mem_similarNames_iff.mp (List.mem_of_mem_take h)).1

/-- With room for all names, no similar name is left out. -/
theorem mem_similarMethods_iff (room : c.methodNames.toFinset.card ≤ limit) :
    name ∈ c.similarMethods query limit ↔
      name ∈ c.methodNames ∧ Text.containsIgnoringCase name query = true := by
  have few : (c.similarNames query).length ≤ limit := by
    have nodup : (c.similarNames query).Nodup := nodup_eraseDups _
    rw [← List.toFinset_card_of_nodup nodup]
    refine (Finset.card_le_card ?_).trans room
    intro n hn
    simp only [List.mem_toFinset] at hn ⊢
    exact (mem_similarNames_iff.mp hn).1
  rw [similarMethods_eq, List.take_of_length_le few, mem_similarNames_iff]

/-- The similar names that are listed, each once, where it first appears. -/
structure FirstAppearances (c : Corpus) (query : String) (names : List String) : Prop where
  mem_iff (name : String) : name ∈ names ↔
    name ∈ c.methodNames ∧ Unicode.lower query.toList <:+: Unicode.lower name.toList
  ordered : names.Pairwise fun a b => c.methodNames.idxOf a < c.methodNames.idxOf b

theorem FirstAppearances.nodup {names : List String} (h : FirstAppearances c query names) :
    names.Nodup :=
  h.ordered.imp fun before => ne_of_apply_ne (c.methodNames.idxOf ·) before.ne

theorem FirstAppearances.unique {names names' : List String} (h : FirstAppearances c query names)
    (h' : FirstAppearances c query names') : names = names' := by
  have asymm : Std.Antisymm fun a b => c.methodNames.idxOf a < c.methodNames.idxOf b :=
    ⟨fun _ _ before after => absurd after (Nat.lt_asymm before)⟩
  have irrefl : Std.Irrefl fun a b => c.methodNames.idxOf a < c.methodNames.idxOf b :=
    ⟨fun _ => Nat.lt_irrefl _⟩
  exact h.ordered.eq_of_mem_iff h'.ordered fun name => (h.mem_iff name).trans (h'.mem_iff name).symm

theorem similarNames_firstAppearances (c : Corpus) (query : String) :
    FirstAppearances c query (c.similarNames query) where
  mem_iff name := by
    rw [mem_similarNames_iff, Text.containsIgnoringCase_iff]
  ordered := pairwise_idxOf_eraseDups _ _

/-- The suggestions are the first of the names that contain the query when both are lower-cased,
each once and in the order in which they first appear. So none is suggested twice, a smaller limit
cuts the list off earlier, and while the limit is not reached no such name is missing. -/
theorem similarMethods_capped (c : Corpus) (query : String) :
    ∃ names, FirstAppearances c query names ∧
      (∀ other, FirstAppearances c query other → other = names) ∧
      ∀ limit, c.similarMethods query limit = names.take limit ∧
        (c.similarMethods query limit).Nodup ∧
        (∀ more, limit ≤ more →
          c.similarMethods query limit <+: c.similarMethods query more) ∧
        ((c.similarMethods query limit).length < limit →
          ∀ name, name ∈ c.similarMethods query limit ↔
            name ∈ c.methodNames ∧ Unicode.lower query.toList <:+: Unicode.lower name.toList) := by
  have appearances := c.similarNames_firstAppearances query
  refine ⟨c.similarNames query, appearances, fun _ other => other.unique appearances, ?_⟩
  intro limit
  have capped := c.similarMethods_eq query
  refine ⟨capped limit, ?_, ?_, ?_⟩
  · rw [capped]
    exact appearances.nodup.sublist (List.take_sublist _ _)
  · intro more larger
    rw [capped, capped]
    exact List.take_prefix_take_left larger
  · intro short name
    rw [capped, List.length_take] at short
    rw [capped, List.take_of_length_le (by omega), appearances.mem_iff]

/-- An overloaded method, and one of its name in another class. -/
def loading : Corpus :=
  ⟨[⟨"app.Net", "Net", "app", ["load", "load", "unload"], [], ""⟩,
    ⟨"app.Screen", "Screen", "app", ["close", "load", "Reload"], [], ""⟩], []⟩

theorem loading_capped :
    let similar := ["load", "unload", "Reload"]
    FirstAppearances loading "LOAD" similar ∧ loading.similarMethods "LOAD" 0 = [] ∧
      loading.similarMethods "LOAD" 2 = ["load", "unload"] ∧ 2 ≤ 5 ∧
      loading.similarMethods "LOAD" 2 <+: loading.similarMethods "LOAD" 5 ∧
      (loading.similarMethods "LOAD" 5).length < 5 ∧
      ("Reload" ∈ loading.similarMethods "LOAD" 5 ↔ "Reload" ∈ loading.methodNames ∧
        Unicode.lower "LOAD".toList <:+: Unicode.lower "Reload".toList) := by
  intro similar
  have found : loading.similarNames "LOAD" = similar := by decide +kernel
  have appearances : FirstAppearances loading "LOAD" similar :=
    found ▸ loading.similarNames_firstAppearances "LOAD"
  obtain ⟨names, -, unique, capped⟩ := similarMethods_capped loading "LOAD"
  obtain rfl := unique similar appearances
  have five : (loading.similarMethods "LOAD" 5).length < 5 := by
    rw [(capped 5).1]
    decide
  exact ⟨appearances, (capped 0).1, (capped 2).1, by decide, (capped 2).2.2.1 5 (by decide), five,
    (capped 5).2.2.2 five "Reload"⟩

end Corpus

end AppSurface
