import AppSurface.Loading
import AppSurface.Proofs.ByteOrder
import AppSurface.Proofs.StableOrder
import Mathlib.Data.List.Nodup

namespace AppSurface

variable {config : Config} {name : String} {names f g : List String} {content : ByteArray}
  {t u : FileTree} {es : List (String × FileTree)}

/-- No directory has two entries of one name. -/
inductive FileTree.Distinct : FileTree → Prop
  | file (content : ByteArray) : Distinct (.file content)
  | directory {es : List (String × FileTree)} :
      (es.map Prod.fst).Nodup → (∀ e ∈ es, Distinct e.2) → Distinct (.directory es)

/-- In the directory in which the paths `f` and `g` part, `f` goes on with the entry whose name has
the smaller bytes. -/
def Before (f g : List String) : Prop :=
  ∃ folder a b, bytes a < bytes b ∧ folder ++ [a] <+: f ∧ folder ++ [b] <+: g

theorem Before.cons (before : Before f g) (name : String) : Before (name :: f) (name :: g) := by
  obtain ⟨folder, a, b, less, hf, hg⟩ := before
  exact ⟨name :: folder, a, b, less, List.cons_prefix_cons.2 ⟨rfl, hf⟩,
    List.cons_prefix_cons.2 ⟨rfl, hg⟩⟩

theorem before_of_lt {a b : String} (less : a < b) (f g : List String) :
    Before (a :: f) (b :: g) :=
  ⟨[], a, b, lt_iff_bytes_lt.1 less, ⟨f, rfl⟩, ⟨g, rfl⟩⟩

/-- The file at the end of `names`, below the directory `t` of the name `root`, is loaded: none of
these names is excluded, and none of the directories below `t` is hidden. -/
structure Taken (config : Config) (root : String) (t : FileTree) (names : List String)
    (content : ByteArray) : Prop where
  present : t.below? names = some (.file content)
  allowed : ∀ name ∈ root :: names, name ∉ builtInExcludes ∧ name ∉ config.excludePatterns
  visible : ∀ name ∈ names.dropLast, name.toList.head? ≠ some '.'

theorem isExcluded_eq_false_iff :
    isExcluded config name = false ↔ name ∉ builtInExcludes ∧ name ∉ config.excludePatterns := by
  simp [isExcluded]

namespace FileTree

theorem child?_eq_some_iff (nodup : (es.map Prod.fst).Nodup) :
    (directory es).child? name = some t ↔ (name, t) ∈ es := by
  simp only [child?, entries, Option.map_eq_some_iff]
  constructor
  · rintro ⟨⟨n, u⟩, found, rfl⟩
    have same := List.find?_some found
    rw [← eq_of_beq same]
    exact List.mem_of_find?_eq_some found
  · intro mem
    cases found : es.find? fun e => e.1 == name with
    | none => exact absurd (List.find?_eq_none.1 found _ mem) (by simp)
    | some e =>
      have same : e.1 = name := by simpa using List.find?_some found
      have equal := List.inj_on_of_nodup_map nodup (List.mem_of_find?_eq_some found) mem same
      exact ⟨e, rfl, by rw [equal]⟩

theorem below?_cons : t.below? (name :: names) = some u ↔
    ∃ v, t.child? name = some v ∧ v.below? names = some u := by
  rw [below?, Option.bind_eq_some_iff]

/-- A path leads through a directory exactly when names follow. -/
theorem isDirectory_iff (h : t.below? names = some (.file content)) :
    t.isDirectory ↔ names ≠ [] := by
  cases t with
  | file c =>
    cases names with
    | nil => simp [isDirectory]
    | cons name names => simp [below?, child?, entries] at h
  | directory es =>
    cases names with
    | nil => simp [below?] at h
    | cons name names => simp [isDirectory]

theorem filesOfEntries_eq (es : List (String × FileTree)) :
    filesOfEntries config es =
      (es.filter fun e => !isSkipped config e.1 e.2).map fun e => (e.1, files config e.2) := by
  induction es with
  | nil => simp [filesOfEntries]
  | cons e es ih =>
    obtain ⟨name, t⟩ := e
    cases hs : isSkipped config name t <;> simp [filesOfEntries, hs, ih]

theorem mem_files_directory : (f, content) ∈ files config (.directory es) ↔
    ∃ name t names, f = name :: names ∧ (name, t) ∈ es ∧ isSkipped config name t = false ∧
      (names, content) ∈ files config t := by
  simp only [files, filesOfEntries_eq, List.mem_flatMap, List.mem_mergeSort, List.mem_map,
    List.mem_filter, Bool.not_eq_true']
  constructor
  · rintro ⟨_, ⟨⟨name, t⟩, ⟨mem, kept⟩, rfl⟩, ⟨names, _⟩, found, same⟩
    cases same
    exact ⟨name, t, names, rfl, mem, kept, found⟩
  · rintro ⟨name, t, names, rfl, mem, kept, found⟩
    exact ⟨_, ⟨(name, t), ⟨mem, kept⟩, rfl⟩, (names, content), found, rfl⟩

/-- On the path to a file, only the last name may be one with a dot in front. -/
theorem isSkipped_eq_false_iff (found : t.below? names = some (.file content)) :
    (isSkipped config name t = false ∧ ∀ n ∈ names.dropLast, n.toList.head? ≠ some '.') ↔
      isExcluded config name = false ∧
        ∀ n ∈ (name :: names).dropLast, n.toList.head? ≠ some '.' := by
  have directory := isDirectory_iff found
  cases names with
  | nil =>
    have file : t.isDirectory = false := by simpa using directory
    simp [isSkipped, file]
  | cons n names =>
    have below : t.isDirectory = true := by simpa using directory
    simp [isSkipped, below, and_assoc]

theorem mem_files_iff (distinct : t.Distinct) : (names, content) ∈ files config t ↔
    t.below? names = some (.file content) ∧
      (∀ name ∈ names, isExcluded config name = false) ∧
      ∀ name ∈ names.dropLast, name.toList.head? ≠ some '.' := by
  induction distinct generalizing names with
  | file c =>
    cases names with
    | nil => simp [files, below?, eq_comm (a := c)]
    | cons name names => simp [files, below?, child?, entries]
  | @directory es nodup _ ih =>
    rw [mem_files_directory]
    constructor
    · rintro ⟨name, t, names, rfl, mem, kept, found⟩
      obtain ⟨present, allowed, visible⟩ := (ih _ mem).1 found
      obtain ⟨top, shown⟩ := (isSkipped_eq_false_iff present).1 ⟨kept, visible⟩
      exact ⟨below?_cons.2 ⟨t, (child?_eq_some_iff nodup).2 mem, present⟩,
        List.forall_mem_cons.2 ⟨top, allowed⟩, shown⟩
    · rintro ⟨present, allowed, visible⟩
      cases names with
      | nil => simp [below?] at present
      | cons name names =>
        obtain ⟨t, child, present⟩ := below?_cons.1 present
        obtain ⟨top, allowed⟩ := List.forall_mem_cons.1 allowed
        obtain ⟨kept, visible⟩ := (isSkipped_eq_false_iff present).2 ⟨top, visible⟩
        have mem := (child?_eq_some_iff nodup).1 child
        exact ⟨name, t, names, rfl, mem, kept, (ih _ mem).2 ⟨present, allowed, visible⟩⟩

/-- The entries of a directory are listed in the order of their names. -/
theorem sorted_filesOfEntries (nodup : (es.map Prod.fst).Nodup) :
    ((filesOfEntries config es).mergeSort fun a b => decide (a.1 ≤ b.1)).Pairwise
      fun a b => a.1 < b.1 := by
  have names : ((filesOfEntries config es).map Prod.fst).Nodup := by
    rw [filesOfEntries_eq, List.map_map]
    exact nodup.sublist (List.filter_sublist.map _)
  have different := ((List.mergeSort_perm (filesOfEntries config es)
    fun a b => decide (a.1 ≤ b.1)).map Prod.fst).nodup_iff.2 names
  have sorted := pairwise_mergeSort_key Prod.fst (filesOfEntries config es)
  exact (sorted.and (List.pairwise_map.1 different)).imp fun h => lt_of_le_of_ne h.1 h.2

theorem files_before (distinct : t.Distinct) :
    (files config t).Pairwise fun f g => Before f.1 g.1 := by
  induction distinct with
  | file c => simp [files]
  | @directory es nodup _ ih =>
    rw [files, List.pairwise_flatMap]
    constructor
    · intro e he
      rw [List.mem_mergeSort, filesOfEntries_eq, List.mem_map] at he
      obtain ⟨entry, mem, rfl⟩ := he
      rw [List.pairwise_map]
      exact (ih entry (List.mem_filter.1 mem).1).imp fun before => before.cons entry.1
    · refine (sorted_filesOfEntries nodup).imp fun less f hf g hg => ?_
      obtain ⟨f, _, rfl⟩ := List.mem_map.1 hf
      obtain ⟨g, _, rfl⟩ := List.mem_map.1 hg
      exact before_of_lt less f.1 g.1

mutual

/-- The listing depends on the settings through the excluded names only. -/
theorem files_congr {other : Config}
    (same : ∀ name, isExcluded config name = isExcluded other name) :
    ∀ t, files config t = files other t
  | .file _ => by simp only [files]
  | .directory es => by simp only [files, filesOfEntries_congr same es]

theorem filesOfEntries_congr {other : Config}
    (same : ∀ name, isExcluded config name = isExcluded other name) :
    ∀ es, filesOfEntries config es = filesOfEntries other es
  | [] => by simp only [filesOfEntries]
  | (name, t) :: es => by
    have skipped : isSkipped config name t = isSkipped other name t := by
      simp only [isSkipped, same name]
    rw [filesOfEntries, filesOfEntries, skipped, files_congr same t, filesOfEntries_congr same es]

end

end FileTree

/-- The files that are loaded from the directory `t` of the name `root`. -/
def listing (config : Config) (root : String) (t : FileTree) : List (List String × ByteArray) :=
  if isExcluded config root then [] else t.files config

theorem listing_before (root : String) (distinct : t.Distinct) :
    (listing config root t).Pairwise fun f g => Before f.1 g.1 := by
  unfold listing
  split
  · exact .nil
  · exact FileTree.files_before distinct

theorem mem_listing_iff {root : String} (distinct : t.Distinct) :
    (names, content) ∈ listing config root t ↔ Taken config root t names content := by
  unfold listing
  split
  next excluded =>
    refine ⟨fun mem => absurd mem List.not_mem_nil, fun taken => ?_⟩
    have allowed := isExcluded_eq_false_iff.2 (taken.allowed root List.mem_cons_self)
    exact absurd excluded (by simp [allowed])
  next included =>
    have included : isExcluded config root = false := by simpa using included
    rw [FileTree.mem_files_iff distinct]
    constructor
    · rintro ⟨present, allowed, visible⟩
      refine ⟨present, List.forall_mem_cons.2 ⟨isExcluded_eq_false_iff.1 included, ?_⟩, visible⟩
      exact fun n hn => isExcluded_eq_false_iff.1 (allowed n hn)
    · rintro ⟨present, allowed, visible⟩
      exact ⟨present, fun n hn => isExcluded_eq_false_iff.2 (allowed n (List.mem_cons_of_mem _ hn)),
        visible⟩

end AppSurface
