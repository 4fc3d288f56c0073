import AppSurface.CallerTree
import AppSurface.Proofs.CallGraph
import AppSurface.Proofs.Chain

namespace AppSurface.CallerTree

/-- A line of a tree: a method on some level, and the methods one level below it. -/
structure Occurrence where
  level : Nat
  signature : String
  recursive : Bool
  callers : List String
deriving DecidableEq

mutual

/-- The lines of a tree whose root stands on `level`, in pre-order. -/
def occurrences (level : Nat) : CallerTree → List Occurrence
  | .node s r cs => ⟨level, s, r, cs.map signature⟩ :: occurrencesAll (level + 1) cs

def occurrencesAll (level : Nat) : List CallerTree → List Occurrence
  | [] => []
  | t :: ts => occurrences level t ++ occurrencesAll level ts

end

/-- The methods shown without a mark, in order. -/
def unmarked (os : List Occurrence) : List String :=
  (os.filter fun o => !o.recursive).map (·.signature)

/-- The methods shown directly below others, each with the one above it. -/
def links (os : List Occurrence) : List (String × String) :=
  os.flatMap fun o => o.callers.map fun s => (o.signature, s)

/-- The methods below the unmarked line of a node. -/
def shownBelow (g : CallGraph) (level i : Nat) : List String :=
  if level < depthLimit then (g.callers i).map g.signatureAt else []

/-- The unmarked line of a node. -/
def line (g : CallGraph) (level i : Nat) : Occurrence :=
  ⟨level, g.signatureAt i, false, shownBelow g level i⟩

/-- The marked line of a node. -/
def mark (g : CallGraph) (level i : Nat) : Occurrence := ⟨level, g.signatureAt i, true, []⟩

/-- The lines `os` follow when the nodes of `shown` have been shown, and `after` are the nodes shown
behind them. -/
inductive Shows (g : CallGraph) : List Nat → List Occurrence → List Nat → Prop
  | nil (shown : List Nat) : Shows g shown [] shown
  | again {shown after os level i} : i ∈ shown → i < g.nodeCount → level ≤ depthLimit →
      Shows g shown os after → Shows g shown (mark g level i :: os) after
  | first {shown after os level i} : i ∉ shown → i < g.nodeCount → level ≤ depthLimit →
      Shows g (i :: shown) os after → Shows g shown (line g level i :: os) after

variable {g : CallGraph} {shown mid after : List Nat} {os more : List Occurrence}
  {o : Occurrence} {level levels i j : Nat} {s : String}

theorem Shows.append (first : Shows g shown os mid) (second : Shows g mid more after) :
    Shows g shown (os ++ more) after := by
  induction first with
  | nil => exact second
  | again hi hn hl _ ih => exact .again hi hn hl (ih second)
  | first hi hn hl _ ih => exact .first hi hn hl (ih second)

theorem Shows.split (shows : Shows g shown (os ++ more) after) :
    ∃ mid, Shows g shown os mid ∧ Shows g mid more after := by
  induction os generalizing shown with
  | nil => exact ⟨shown, .nil shown, shows⟩
  | cons o os ih =>
    cases shows with
    | again hi hn hl rest =>
      obtain ⟨mid, hos, hmore⟩ := ih rest
      exact ⟨mid, .again hi hn hl hos, hmore⟩
    | first hi hn hl rest =>
      obtain ⟨mid, hos, hmore⟩ := ih rest
      exact ⟨mid, .first hi hn hl hos, hmore⟩

theorem Shows.subset (shows : Shows g shown os after) : shown ⊆ after := by
  induction shows with
  | nil => exact List.Subset.refl _
  | again _ _ _ _ ih => exact ih
  | first _ _ _ _ ih => exact List.Subset.trans (List.subset_cons_self _ _) ih

theorem Shows.of_mem (shows : Shows g shown os after) (ho : o ∈ os) :
    o.level ≤ depthLimit ∧
      ∃ i ∈ after, i < g.nodeCount ∧ (o = line g o.level i ∧ i ∉ shown ∨ o = mark g o.level i) := by
  induction shows with
  | nil => cases ho
  | again hi hn hl rest ih =>
    rcases List.mem_cons.mp ho with rfl | ho
    · exact ⟨hl, _, rest.subset hi, hn, .inr rfl⟩
    · exact ih ho
  | first hi hn hl rest ih =>
    rcases List.mem_cons.mp ho with rfl | ho
    · exact ⟨hl, _, rest.subset List.mem_cons_self, hn, .inl ⟨rfl, hi⟩⟩
    · obtain ⟨hl, j, hj, hn, same⟩ := ih ho
      refine ⟨hl, j, hj, hn, same.imp_left ?_⟩
      rintro ⟨same, fresh⟩
      exact ⟨same, fun hs => fresh (List.mem_cons_of_mem _ hs)⟩

theorem Shows.exists_line (shows : Shows g shown os after) (hi : i ∈ after) :
    i ∈ shown ∨ ∃ level, line g level i ∈ os := by
  induction shows with
  | nil => exact .inl hi
  | again _ _ _ _ ih =>
    rcases ih hi with hs | ⟨level, hl⟩
    · exact .inl hs
    · exact .inr ⟨level, List.mem_cons_of_mem _ hl⟩
  | first _ _ _ _ ih =>
    rcases ih hi with hs | ⟨level, hl⟩
    · rcases List.mem_cons.mp hs with rfl | hs
      · exact .inr ⟨_, List.mem_cons_self⟩
      · exact .inl hs
    · exact .inr ⟨level, List.mem_cons_of_mem _ hl⟩

section Grow

variable {step : List Nat → Nat → CallerTree × List Nat} {is : List Nat}

theorem collect_shows (h : ∀ shown, ∀ i ∈ is,
      Shows g shown (occurrences level (step shown i).1) (step shown i).2) :
    Shows g shown (occurrencesAll level (collect step shown is).1) (collect step shown is).2 := by
  induction is generalizing shown with
  | nil => exact .nil shown
  | cons i is ih =>
    have first := h shown i List.mem_cons_self
    have rest : Shows g (step shown i).2 _ _ := ih fun shown j hj =>
      h shown j (List.mem_cons_of_mem _ hj)
    exact first.append rest

theorem collect_signature (h : ∀ shown i, (step shown i).1.signature = g.signatureAt i) :
    (collect step shown is).1.map signature = is.map g.signatureAt := by
  induction is generalizing shown with
  | nil => rfl
  | cons i is ih => simp [collect, h, ih]

end Grow

theorem grow_of_shown (hi : i ∈ shown) :
    grow g levels shown i = (.node (g.signatureAt i) true [], shown) := by
  cases levels <;> simp [grow, hi]

theorem grow_of_fresh (hi : i ∉ shown) : grow g levels shown i =
    match levels with
    | 0 => (.node (g.signatureAt i) false [], i :: shown)
    | levels + 1 =>
      (.node (g.signatureAt i) false (collect (grow g levels) (i :: shown) (g.callers i)).1,
        (collect (grow g levels) (i :: shown) (g.callers i)).2) := by
  cases levels <;> simp [grow, hi]

theorem grow_signature : (grow g levels shown i).1.signature = g.signatureAt i := by
  by_cases hi : i ∈ shown
  · rw [grow_of_shown hi]
    rfl
  · rw [grow_of_fresh hi]
    cases levels <;> rfl

theorem ofTarget_signature (g : CallGraph) (target : Nat) :
    (ofTarget g target).signature = g.signatureAt target := grow_signature

/-- A tree shows its root, and then what the trees of the root's callers show. -/
theorem grow_shows (valid : g.Valid) (hi : i < g.nodeCount) (hl : level + levels = depthLimit) :
    Shows g shown (occurrences level (grow g levels shown i).1) (grow g levels shown i).2 := by
  induction levels generalizing level shown i with
  | zero =>
    by_cases hs : i ∈ shown
    · rw [grow_of_shown hs]
      exact .again hs hi (by omega) (.nil shown)
    · rw [grow_of_fresh hs]
      have none : shownBelow g level i = [] := if_neg (by omega)
      have whole := Shows.first hs hi (show level ≤ depthLimit by omega) (.nil _)
      rw [line, none] at whole
      exact whole
  | succ levels ih =>
    by_cases hs : i ∈ shown
    · rw [grow_of_shown hs]
      exact .again hs hi (by omega) (.nil shown)
    · rw [grow_of_fresh hs]
      -- the callers' trees follow one another, each behind the nodes that the last one left shown
      have inner : Shows g (i :: shown)
          (occurrencesAll (level + 1) (collect (grow g levels) (i :: shown) (g.callers i)).1)
          (collect (grow g levels) (i :: shown) (g.callers i)).2 := by
        apply collect_shows
        intro shown j hj
        exact ih (CallGraph.lt_of_mem_callers valid hj) (by omega)
      have all : shownBelow g level i = (g.callers i).map g.signatureAt := if_pos (by omega)
      have whole := Shows.first hs hi (show level ≤ depthLimit by omega) inner
      rw [line, all, ← collect_signature fun _ _ => grow_signature] at whole
      exact whole

theorem ofTarget_shows (valid : g.Valid) (hi : i < g.nodeCount) :
    Shows g [] (occurrences 0 (ofTarget g i)) (grow g depthLimit [] i).2 :=
  grow_shows valid hi (Nat.zero_add _)

theorem exists_root (level : Nat) (t : CallerTree) :
    ∃ o ∈ occurrences level t, o.signature = t.signature := by
  cases t with
  | node s r cs => exact ⟨_, List.mem_cons_self, rfl⟩

theorem occurrences_subset {t : CallerTree} {ts : List CallerTree} (ht : t ∈ ts) (level : Nat) :
    occurrences level t ⊆ occurrencesAll level ts := by
  induction ts with
  | nil => cases ht
  | cons u us ih =>
    rw [occurrencesAll]
    rcases List.mem_cons.mp ht with rfl | ht
    · exact List.subset_append_left _ _
    · exact List.Subset.trans (ih ht) (List.subset_append_right _ _)

mutual

/-- A method listed below a line has a line of its own. -/
theorem exists_of_mem_callers (level : Nat) (t : CallerTree) : ∀ o ∈ occurrences level t,
    ∀ s ∈ o.callers, ∃ x ∈ occurrences level t, x.signature = s := by
  cases t with
  | node r marked cs =>
    intro o ho s hs
    rcases List.mem_cons.mp ho with rfl | ho
    · obtain ⟨t, ht, rfl⟩ := List.mem_map.mp hs
      obtain ⟨x, hx, same⟩ := exists_root (level + 1) t
      exact ⟨x, List.mem_cons_of_mem _ (occurrences_subset ht (level + 1) hx), same⟩
    · obtain ⟨x, hx, same⟩ := exists_of_mem_callersAll (level + 1) cs o ho s hs
      exact ⟨x, List.mem_cons_of_mem _ hx, same⟩

theorem exists_of_mem_callersAll (level : Nat) (ts : List CallerTree) :
    ∀ o ∈ occurrencesAll level ts,
      ∀ s ∈ o.callers, ∃ x ∈ occurrencesAll level ts, x.signature = s := by
  cases ts with
  | nil => simp [occurrencesAll]
  | cons t ts =>
    intro o ho s hs
    rcases List.mem_append.mp ho with ho | ho
    · obtain ⟨x, hx, same⟩ := exists_of_mem_callers level t o ho s hs
      exact ⟨x, List.mem_append_left _ hx, same⟩
    · obtain ⟨x, hx, same⟩ := exists_of_mem_callersAll level ts o ho s hs
      exact ⟨x, List.mem_append_right _ hx, same⟩

end

/-- A node is cut off if it is shown without a mark as deep as trees go, but has callers. -/
def CutOff (g : CallGraph) (target i : Nat) : Prop :=
  g.callers i ≠ [] ∧ ∃ o ∈ occurrences 0 (ofTarget g target),
    o.signature = g.signatureAt i ∧ o.recursive = false ∧ o.level = depthLimit

instance (g : CallGraph) (target i : Nat) : Decidable (CutOff g target i) :=
  inferInstanceAs (Decidable (_ ∧ _))

/-- A line of a node with callers stands above the limit, unless the node is cut off. -/
theorem lt_depthLimit {target : Nat} (valid : g.Valid) (ht : target < g.nodeCount)
    (hl : line g level i ∈ occurrences 0 (ofTarget g target)) (some : g.callers i ≠ [])
    (whole : ¬CutOff g target i) : level < depthLimit := by
  have bound : level ≤ depthLimit := ((ofTarget_shows valid ht).of_mem hl).1
  have above : level ≠ depthLimit := fun limit => whole ⟨some, _, hl, rfl, rfl, limit⟩
  omega

section Lines

variable (valid : g.Valid)
include valid

theorem Shows.fresh (shows : Shows g shown os after) (ho : o ∈ os) (hr : o.recursive = false)
    (hi : i < g.nodeCount) (hs : o.signature = g.signatureAt i) : i ∉ shown := by
  obtain ⟨_, j, _, hj, ⟨same, fresh⟩ | same⟩ := shows.of_mem ho
  · rw [same] at hs
    rwa [CallGraph.signatureAt_inj valid hj hi hs] at fresh
  · rw [same] at hr
    cases hr

theorem Shows.nodup_unmarked (shows : Shows g shown os after) : (unmarked os).Nodup := by
  induction shows with
  | nil => exact List.nodup_nil
  | again _ _ _ _ ih => simpa [unmarked, mark] using ih
  | @first shown after os level i hi hn hl rest ih =>
    have alone : g.signatureAt i ∉ unmarked os := by
      intro hs
      obtain ⟨o, ho, same⟩ := List.mem_map.mp hs
      obtain ⟨ho, hr⟩ := List.mem_filter.mp ho
      have hr : o.recursive = false := by simpa using hr
      exact rest.fresh valid ho hr hn same List.mem_cons_self
    have whole : unmarked (line g level i :: os) = g.signatureAt i :: unmarked os := by
      simp [unmarked, line]
    rw [whole]
    exact List.nodup_cons.mpr ⟨alone, ih⟩

theorem Shows.exists_line_of_signature (shows : Shows g [] os after) (ho : o ∈ os)
    (hi : i < g.nodeCount) (hs : o.signature = g.signatureAt i) :
    ∃ level, line g level i ∈ os := by
  obtain ⟨_, j, hj, hn, same⟩ := shows.of_mem ho
  have hij : j = i := by
    apply CallGraph.signatureAt_inj valid hn hi
    rw [← hs]
    rcases same with ⟨same, _⟩ | same <;> rw [same] <;> rfl
  rw [← hij]
  exact (shows.exists_line hj).resolve_left List.not_mem_nil

variable {target : Nat} (ht : target < g.nodeCount)
include ht

theorem exists_line_target : ∃ level, line g level target ∈ occurrences 0 (ofTarget g target) := by
  obtain ⟨o, ho, same⟩ := exists_root 0 (ofTarget g target)
  exact (ofTarget_shows valid ht).exists_line_of_signature valid ho ht
    (same.trans (ofTarget_signature g target))

theorem exists_line_caller (hl : line g level i ∈ occurrences 0 (ofTarget g target))
    (hd : level < depthLimit) (hr : g.Recorded i j) :
    ∃ level, line g level j ∈ occurrences 0 (ofTarget g target) := by
  have hj : j ∈ g.callers i := (CallGraph.mem_callers valid).mpr hr
  have below : g.signatureAt j ∈ (line g level i).callers := by
    rw [line, shownBelow, if_pos hd]
    exact List.mem_map_of_mem hj
  obtain ⟨x, hx, same⟩ := exists_of_mem_callers _ _ _ hl _ below
  exact (ofTarget_shows valid ht).exists_line_of_signature valid hx (valid.joined hr).2 same

/-- A chain of caller hops is shown up to its end, or up to a node that is cut off. -/
theorem shown_or_cutOff {l : List Nat} (chain : Chain g.Recorded target l i) :
    (∃ level, line g level i ∈ occurrences 0 (ofTarget g target)) ∨
      ∃ k p x t, l = k ++ x :: t ∧ Chain g.Recorded target k p ∧ g.Recorded p x ∧
        CutOff g target p ∧ ¬∃ level, line g level x ∈ occurrences 0 (ofTarget g target) := by
  rcases chain.first_loss
    (P := fun i => ∃ level, line g level i ∈ occurrences 0 (ofTarget g target))
    (exists_line_target valid ht) with shown | cut
  · exact .inl shown
  · obtain ⟨k, p, x, t, hl, hk, ⟨level, hp⟩, hr, lost, _⟩ := cut
    have some : g.callers p ≠ [] := List.ne_nil_of_mem ((CallGraph.mem_callers valid).mpr hr)
    -- a hop is lost only behind a line that lists no callers although the node has some
    have cut : CutOff g target p := by
      by_contra whole
      have hd := lt_depthLimit valid ht hp some whole
      exact lost (exists_line_caller valid ht hp hd hr)
    exact .inr ⟨k, p, x, t, hl, hk, hr, cut, lost⟩

theorem exists_line_of_chain {l : List Nat} (whole : ∀ i < g.nodeCount, ¬CutOff g target i)
    (chain : Chain g.Recorded target l i) :
    ∃ level, line g level i ∈ occurrences 0 (ofTarget g target) := by
  rcases shown_or_cutOff valid ht chain with shown | ⟨_, p, _, _, _, _, hr, cut, _⟩
  · exact shown
  · exact absurd cut (whole p (valid.joined hr).1)

end Lines

end AppSurface.CallerTree
