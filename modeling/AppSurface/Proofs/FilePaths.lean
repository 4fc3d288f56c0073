import AppSurface.Proofs.FileListing

namespace AppSurface

variable {directory name : String} {names names' : List String} {t u : FileTree}

/-- What an entry of a directory can be called. -/
structure IsFileName (name : String) : Prop where
  nonempty : name ≠ ""
  noSlash : '/' ∉ name.toList

instance (name : String) : Decidable (IsFileName name) :=
  decidable_of_iff (name ≠ "" ∧ '/' ∉ name.toList) ⟨fun h => ⟨h.1, h.2⟩, fun h => ⟨h.1, h.2⟩⟩

/-- All entries have the names of files. -/
inductive FileTree.Named : FileTree → Prop
  | file (content : ByteArray) : Named (.file content)
  | directory {es : List (String × FileTree)} :
      (∀ e ∈ es, IsFileName e.1) → (∀ e ∈ es, Named e.2) → Named (.directory es)

theorem FileTree.Named.child (h : t.Named) (found : t.child? name = some u) :
    IsFileName name ∧ u.Named := by
  simp only [child?, Option.map_eq_some_iff] at found
  obtain ⟨e, found, rfl⟩ := found
  have mem := List.mem_of_find?_eq_some found
  obtain rfl : e.1 = name := by simpa using List.find?_some found
  cases h with
  | file => cases mem
  | directory proper below => exact ⟨proper e mem, below e mem⟩

theorem FileTree.Named.isFileName (h : t.Named) (found : t.below? names = some u) :
    ∀ name ∈ names, IsFileName name := by
  induction names generalizing t with
  | nil => exact List.forall_mem_nil _
  | cons name names ih =>
    obtain ⟨v, child, found⟩ := below?_cons.1 found
    obtain ⟨proper, below⟩ := h.child child
    exact List.forall_mem_cons.2 ⟨proper, ih below found⟩

namespace Path

/-- A path with a slash at its end. -/
def withSlash (path : List Char) : List Char :=
  if path.getLast? = some '/' then path else path ++ ['/']

theorem slash_mem_withSlash (path : List Char) : '/' ∈ withSlash path := by
  unfold withSlash
  split
  next ends => exact List.mem_of_getLast? ends
  next => simp

theorem toList_join (nonempty : directory ≠ "") (name : String) :
    (join directory name).toList = withSlash directory.toList ++ name.toList := by
  unfold join withSlash
  rw [List.getLast?_eq_head?_reverse]
  cases back : directory.toList.reverse with
  | nil => simp [nonempty] at back
  | cons c s =>
    by_cases slash : c = '/'
    · simp [slash]
    · simp [slash]

/-- A name does not end in a slash. -/
theorem withSlash_append (front : List Char) (h : IsFileName name) :
    withSlash (front ++ name.toList) = front ++ (name.toList ++ ['/']) := by
  unfold withSlash
  rw [if_neg, List.append_assoc]
  intro ends
  rw [List.getLast?_append_of_ne_nil _ (by simpa using h.nonempty)] at ends
  exact h.noSlash (List.mem_of_getLast? ends)

theorem toList_foldl_join (nonempty : directory ≠ "") (proper : ∀ name ∈ names, IsFileName name)
    (below : names ≠ []) : (names.foldl join directory).toList =
      withSlash directory.toList ++ ['/'].intercalate (names.map String.toList) := by
  induction names generalizing directory with
  | nil => exact absurd rfl below
  | cons name names ih =>
    obtain ⟨first, rest⟩ := List.forall_mem_cons.1 proper
    cases names with
    | nil => simp [toList_join nonempty]
    | cons next names =>
      have joined : join directory name ≠ "" := by
        intro empty
        have chars := toList_join nonempty name
        simp [empty, first.nonempty] at chars
      rw [List.foldl_cons, ih joined rest (List.cons_ne_nil _ _), toList_join nonempty,
        withSlash_append _ first]
      simp [List.intercalate_cons_cons]

/-- Different names below a directory are different paths. -/
theorem foldl_join_inj (nonempty : directory ≠ "") (proper : ∀ name ∈ names, IsFileName name)
    (proper' : ∀ name ∈ names', IsFileName name) (below : names ≠ []) (below' : names' ≠ [])
    (same : names.foldl join directory = names'.foldl join directory) : names = names' := by
  have noSlash {names : List String} (proper : ∀ name ∈ names, IsFileName name) :
      ∀ s ∈ names.map String.toList, '/' ∉ s := by
    intro s hs
    obtain ⟨name, hname, rfl⟩ := List.mem_map.1 hs
    exact (proper name hname).noSlash
  have chars := congrArg String.toList same
  rw [toList_foldl_join nonempty proper below, toList_foldl_join nonempty proper' below',
    List.append_cancel_left_eq] at chars
  have parts := congrArg (List.splitOn '/') chars
  rw [List.splitOn_intercalate _ (noSlash proper) (by simpa using below),
    List.splitOn_intercalate _ (noSlash proper') (by simpa using below')] at parts
  exact List.map_injective_iff.2 (fun _ _ => String.toList_inj.1) parts

end Path

end AppSurface
