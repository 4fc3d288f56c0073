import AppSurface.Proofs.CallerTree

namespace AppSurface.CallerTree

/-- A signature that keeps apart from what stands around it on a line: it has no blanks, line breaks
and corners. -/
def IsPlain (signature : String) : Prop :=
  ∀ c ∈ signature.toList, c ≠ ' ' ∧ c ≠ '\n' ∧ c ≠ '└'

instance : DecidablePred IsPlain := fun _ => inferInstanceAs (Decidable (∀ _ ∈ _, _))

/-- What stands behind a signature. -/
def sign (recursive : Bool) : String := if recursive then " [RECURSIVE]" else ""

/-- The text of a line, without its end. -/
def Occurrence.text (o : Occurrence) : String :=
  indent o.level ++ o.signature ++ sign o.recursive

/-- What the text of a line tells. -/
def Occurrence.told (o : Occurrence) : Nat × String × Bool := (o.level, o.signature, o.recursive)

variable {o p : Occurrence} {os ps : List Occurrence} {ts us : List CallerTree} {m n : Nat}
  {s t : String} {r q : Bool} {x y : List Char}

theorem corner_mem_indent (n : Nat) : '└' ∈ (indent (n + 1)).toList := by
  induction n with
  | zero => decide
  | succ n ih => simp [indent, ih]

theorem lineBreak_notMem_indent (n : Nat) : '\n' ∉ (indent n).toList := by
  induction n using indent.induct with
  | case1 => decide
  | case2 => decide
  | case3 n ih => simp [indent, ih]

/-- The corner in front of a line tells its level. -/
theorem indent_append_inj (hx : '└' ∉ x) (hy : '└' ∉ y)
    (same : (indent m).toList ++ x = (indent n).toList ++ y) : m = n ∧ x = y := by
  -- where one line has no corner, the other has none, and else both go on behind the same marks
  have corner {k : Nat} {z w : List Char} (hz : '└' ∉ z) :
      z ≠ (indent (k + 1)).toList ++ w :=
    fun h => hz (h ▸ List.mem_append_left _ (corner_mem_indent k))
  induction m using indent.induct generalizing n with
  | case1 =>
    cases n with
    | zero => exact ⟨rfl, by simpa [indent] using same⟩
    | succ n => exact absurd same (corner (by simpa [indent] using hx))
  | case2 =>
    match n with
    | 0 => exact absurd same.symm (corner (by simpa [indent] using hy))
    | 1 => exact ⟨rfl, List.append_cancel_left same⟩
    | n + 2 => simp [indent] at same
  | case3 m ih =>
    match n with
    | 0 => exact absurd same.symm (corner (by simpa [indent] using hy))
    | 1 => simp [indent] at same
    | n + 2 =>
      simp only [indent, String.toList_append, List.append_assoc,
        List.append_cancel_left_eq] at same
      obtain ⟨level, rest⟩ := ih same
      exact ⟨by omega, rest⟩

theorem sign_append_inj (hs : IsPlain s) (ht : IsPlain t)
    (same : (s ++ sign r).toList = (t ++ sign q).toList) : s = t ∧ r = q := by
  have blank {s : String} (hs : IsPlain s) {z : List Char} :
      s.toList ≠ z ++ " [RECURSIVE]".toList :=
    fun h => (hs ' ' (h ▸ by simp)).1 rfl
  rw [String.toList_append, String.toList_append] at same
  cases r with
  | false =>
    cases q with
    | false => exact ⟨String.toList_inj.mp (by simpa [sign] using same), rfl⟩
    | true => exact absurd same (by simpa [sign] using blank hs)
  | true =>
    cases q with
    | false => exact absurd same.symm (by simpa [sign] using blank ht)
    | true => exact ⟨String.toList_inj.mp (by simpa [sign] using same), rfl⟩

theorem corner_notMem (h : IsPlain s) (r : Bool) : '└' ∉ (s ++ sign r).toList := by
  have own : '└' ∉ s.toList := fun mem => (h _ mem).2.2 rfl
  cases r <;> simp [sign, own]

/-- A line tells all it shows. -/
theorem told_eq_of_text_eq (ho : IsPlain o.signature) (hp : IsPlain p.signature)
    (same : o.text = p.text) : o.told = p.told := by
  have chars := congrArg String.toList same
  rw [Occurrence.text, Occurrence.text, String.append_assoc, String.append_assoc,
    String.toList_append, String.toList_append (t := _ ++ sign p.recursive)] at chars
  obtain ⟨level, rest⟩ := indent_append_inj (corner_notMem ho _) (corner_notMem hp _) chars
  obtain ⟨signature, mark⟩ := sign_append_inj ho hp rest
  rw [Occurrence.told, Occurrence.told, level, signature, mark]

theorem lineBreak_notMem_text (h : IsPlain o.signature) : '\n' ∉ o.text.toList := by
  have own : '\n' ∉ o.signature.toList := fun mem => (h _ mem).2.1 rfl
  have level := lineBreak_notMem_indent o.level
  rw [Occurrence.text]
  cases o.recursive <;> simp [sign, own, level]

theorem told_eq_of_texts_eq (ho : ∀ o ∈ os, IsPlain o.signature)
    (hp : ∀ p ∈ ps, IsPlain p.signature)
    (same : os.map (·.text) = ps.map (·.text)) : os.map (·.told) = ps.map (·.told) := by
  induction os generalizing ps with
  | nil => cases ps with
    | nil => rfl
    | cons p ps => cases same
  | cons o os ih => cases ps with
    | nil => cases same
    | cons p ps =>
      obtain ⟨first, ho⟩ := List.forall_mem_cons.mp ho
      obtain ⟨first', hp⟩ := List.forall_mem_cons.mp hp
      obtain ⟨line, rest⟩ := List.cons_eq_cons.mp same
      rw [List.map_cons, List.map_cons, told_eq_of_text_eq first first' line, ih ho hp rest]

mutual

/-- The text of a tree is made of its lines, in pre-order. -/
theorem toList_render (n : Nat) (t : CallerTree) :
    (render n t).toList = (occurrences n t).flatMap fun o => o.text.toList ++ ['\n'] := by
  cases t with
  | node s r cs =>
    simp only [render, occurrences, String.toList_append, toList_renderAll (n + 1) cs,
      List.flatMap_cons, Occurrence.text]
    rfl

theorem toList_renderAll (n : Nat) (ts : List CallerTree) :
    (renderAll n ts).toList = (occurrencesAll n ts).flatMap fun o => o.text.toList ++ ['\n'] := by
  cases ts with
  | nil => rfl
  | cons t ts =>
    simp only [renderAll, occurrencesAll, String.toList_append, toList_render n t,
      toList_renderAll n ts, List.flatMap_append]

end

theorem splitOn_lines {α : Type} [BEq α] [LawfulBEq α] (stop : α) {lines : List (List α)}
    (whole : ∀ line ∈ lines, stop ∉ line) :
    (lines.flatMap (· ++ [stop])).splitOn stop = lines ++ [[]] := by
  have joined : lines.flatMap (· ++ [stop]) = [stop].intercalate (lines ++ [[]]) := by
    induction lines with
    | nil => rfl
    | cons line lines ih =>
      obtain ⟨_, whole⟩ := List.forall_mem_cons.mp whole
      rw [List.flatMap_cons, ih whole]
      cases lines <;> simp [List.intercalate_cons_cons]
  rw [joined, List.splitOn_intercalate]
  · intro line mem
    rcases List.mem_append.mp mem with mem | mem
    · exact whole line mem
    · simp [List.mem_singleton.mp mem]
  · simp

/-- A text has one line for each method in the trees, in pre-order. -/
theorem splitOn_renderAll (plain : ∀ o ∈ occurrencesAll n ts, IsPlain o.signature) :
    (renderAll n ts).toList.splitOn '\n' =
      (occurrencesAll n ts).map (fun o => o.text.toList) ++ [[]] := by
  rw [toList_renderAll, ← splitOn_lines '\n', List.flatMap_map]
  intro line mem
  obtain ⟨o, ho, rfl⟩ := List.mem_map.mp mem
  exact lineBreak_notMem_text (plain o ho)

/-- What the lines of some trees tell, the trees standing on level `n`. -/
def told (n : Nat) (ts : List CallerTree) : List (Nat × String × Bool) :=
  (occurrencesAll n ts).map (·.told)

theorem told_cons (n : Nat) (s : String) (r : Bool) (cs ts : List CallerTree) :
    told n (.node s r cs :: ts) = (n, s, r) :: (told (n + 1) cs ++ told n ts) := by
  simp [told, occurrencesAll, occurrences, Occurrence.told]

/-- What follows trees on a level belongs to a lower level, if anything does. -/
def Leaves (level : Nat) (rest : List (Nat × String × Bool)) : Prop :=
  ∀ line ∈ rest.head?, line.1 < level

theorem not_leaves_cons {rest : List (Nat × String × Bool)} : ¬Leaves n ((n, s, r) :: rest) :=
  fun h => Nat.lt_irrefl n (h (n, s, r) rfl)

theorem leaves_told {rest : List (Nat × String × Bool)} (h : Leaves n rest) (ts : List CallerTree) :
    Leaves (n + 1) (told n ts ++ rest) := by
  intro line mem
  rcases ts with _ | ⟨⟨s, r, cs⟩, ts⟩
  · exact Nat.lt_succ_of_lt (h line mem)
  · rw [told_cons] at mem
    obtain rfl : (n, s, r) = line := by simpa using mem
    exact Nat.lt_succ_self n

/-- The lines of trees tell the trees, and where they end. -/
theorem eq_of_told_append {n : Nat} {rest rest' : List (Nat × String × Bool)} (h : Leaves n rest)
    (h' : Leaves n rest') (ts us : List CallerTree)
    (same : told n ts ++ rest = told n us ++ rest') : ts = us ∧ rest = rest' := by
  match ts, us with
  | [], [] => exact ⟨rfl, same⟩
  | [], .node s r cs :: us =>
    -- where one list ends, the other cannot go on with a line of the same level
    rw [told_cons] at same
    obtain rfl : rest = _ := same
    exact absurd h not_leaves_cons
  | .node s r cs :: ts, [] =>
    rw [told_cons] at same
    obtain rfl : _ = rest' := same
    exact absurd h' not_leaves_cons
  | .node s r cs :: ts, .node s' r' cs' :: us =>
    rw [told_cons, told_cons, List.cons_append, List.cons_append, List.append_assoc,
      List.append_assoc] at same
    obtain ⟨line, below⟩ := List.cons_eq_cons.mp same
    obtain ⟨rfl, rfl⟩ := Prod.mk.inj (Prod.mk.inj line).2
    obtain ⟨rfl, behind⟩ := eq_of_told_append (leaves_told h ts) (leaves_told h' us) cs cs' below
    obtain ⟨rfl, after⟩ := eq_of_told_append h h' ts us behind
    exact ⟨rfl, after⟩

/-- The text of some trees has one line for each method in them, in pre-order, and the lines tell
the trees. -/
theorem renderAll_determines (plain : ∀ o ∈ occurrencesAll 0 ts, IsPlain o.signature)
    (plain' : ∀ o ∈ occurrencesAll 0 us, IsPlain o.signature) :
    (renderAll 0 ts).toList.splitOn '\n' =
      (occurrencesAll 0 ts).map (fun o => o.text.toList) ++ [[]] ∧
    (renderAll 0 ts = renderAll 0 us ↔ ts = us) ∧
    ∀ first second : Trace, first.callerTrees = ts → second.callerTrees = us →
      (first.renderTrees = second.renderTrees ↔ ts = us) := by
  have determined : renderAll 0 ts = renderAll 0 us ↔ ts = us := by
    refine ⟨fun same => ?_, congrArg _⟩
    have lines := congrArg (fun text => text.toList.splitOn '\n') same
    simp only [splitOn_renderAll plain, splitOn_renderAll plain',
      List.append_cancel_right_eq] at lines
    have texts : (occurrencesAll 0 ts).map (·.text) = (occurrencesAll 0 us).map (·.text) := by
      have inj : Function.Injective (List.map String.toList) :=
        List.map_injective_iff.mpr fun _ _ => String.toList_inj.mp
      exact inj (by simpa only [List.map_map, Function.comp_def] using lines)
    have same : told 0 ts = told 0 us := told_eq_of_texts_eq plain plain' texts
    have leaves : Leaves 0 [] := nofun
    exact (eq_of_told_append leaves leaves ts us (by rw [same])).1
  refine ⟨splitOn_renderAll plain, determined, ?_⟩
  rintro first second rfl rfl
  exact determined

/-- A caller of the second method, or one of the first. -/
theorem moved_caller_told :
    let again := node "A.a" true []
    let ts := [node "A.a" false [node "B.b" false [again], node "[RECURSIVE]" false []]]
    let us := [node "A.a" false [node "B.b" false [again, node "[RECURSIVE]" false []]]]
    (∀ o ∈ occurrencesAll 0 ts, IsPlain o.signature) ∧
      (∀ o ∈ occurrencesAll 0 us, IsPlain o.signature) ∧
      (renderAll 0 ts).toList.splitOn '\n' =
        ["A.a", "└── B.b", "    └── A.a [RECURSIVE]", "└── [RECURSIVE]", ""].map String.toList ∧
      renderAll 0 ts ≠ renderAll 0 us := by
  intro again ts us
  have plain : ∀ o ∈ occurrencesAll 0 ts, IsPlain o.signature := by
    simp [ts, again, occurrencesAll, occurrences, IsPlain]
  have plain' : ∀ o ∈ occurrencesAll 0 us, IsPlain o.signature := by
    simp [us, again, occurrencesAll, occurrences, IsPlain]
  obtain ⟨lines, determined, -⟩ := renderAll_determines plain plain'
  refine ⟨plain, plain', lines.trans (by decide +kernel), fun same => ?_⟩
  have equal := determined.mp same
  simp [ts, us, again] at equal

end AppSurface.CallerTree
