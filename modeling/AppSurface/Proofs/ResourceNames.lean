import AppSurface.Proofs.SkippedFiles
import Mathlib.Data.List.Find

namespace AppSurface

variable {fs : FileSystem} {path : String} {config : Config} {names f g : List String}
  {content : ByteArray} {t : FileTree} {es : List (String × FileTree)} {text : String}

/-- The parts of a path when backslashes count as slashes. -/
def parts (names : List String) : List (List Char) := names.flatMap (·.toList.splitOn '\\')

/-- The names have no backslashes. -/
def IsSlashed (names : List String) : Prop := ∀ name ∈ names, '\\' ∉ name.toList

instance : DecidablePred IsSlashed := fun _ => inferInstanceAs (Decidable (∀ _ ∈ _, _))

theorem splitOn_map_slash {s : List Char} (noSlash : '/' ∉ s) :
    (s.map fun c => if c = '\\' then '/' else c).splitOn '/' = s.splitOn '\\' := by
  induction s with
  | nil => rfl
  | cons c s ih =>
    obtain ⟨hc, hs⟩ : '/' ≠ c ∧ '/' ∉ s := by simpa using noSlash
    rw [List.map_cons, List.splitOn_cons_eq_if_modifyHead, List.splitOn_cons_eq_if_modifyHead,
      ih hs]
    by_cases back : c = '\\'
    · simp [back]
    · simp [back, Ne.symm hc]

theorem splitOn_intercalate_slash {ss : List (List Char)} (nonempty : ss ≠ []) :
    (['/'].intercalate ss).splitOn '/' = ss.flatMap (·.splitOn '/') := by
  induction ss with
  | nil => exact absurd rfl nonempty
  | cons s ss ih =>
    cases ss with
    | nil => simp
    | cons next ss =>
      rw [List.intercalate_cons_cons, List.append_assoc, List.singleton_append,
        List.splitOn_append_cons_self, ih (List.cons_ne_nil _ _)]
      rfl

/-- The parts of a path are those of the name that stands for it. -/
theorem splitOn_slashed (nonempty : names ≠ []) (proper : ∀ name ∈ names, IsFileName name) :
    (slashed names).toList.splitOn '/' = parts names := by
  rw [slashed, String.toList_intercalate, List.map_map]
  refine (splitOn_intercalate_slash (by simpa using nonempty)).trans ?_
  rw [List.flatMap_map, parts]
  refine List.flatMap_congr fun name mem => ?_
  rw [Function.comp_apply, String.toList_map]
  exact splitOn_map_slash (proper name mem).noSlash

theorem slashed_eq_iff (hf : f ≠ []) (hg : g ≠ []) (proper : ∀ name ∈ f, IsFileName name)
    (proper' : ∀ name ∈ g, IsFileName name) : slashed f = slashed g ↔ parts f = parts g := by
  rw [← splitOn_slashed hf proper, ← splitOn_slashed hg proper']
  refine ⟨fun same => by rw [same], fun same => String.toList_inj.1 ?_⟩
  have joined := congrArg ['/'].intercalate same
  rwa [List.intercalate_splitOn, List.intercalate_splitOn] at joined

theorem Before.of_append {base : List String} (before : Before (base ++ f) (base ++ g)) :
    Before f g := by
  induction base with
  | nil => exact before
  | cons name base ih =>
    obtain ⟨folder, a, b, less, hf, hg⟩ := before
    cases folder with
    | nil =>
      obtain rfl := (List.cons_prefix_cons.1 hf).1
      obtain rfl := (List.cons_prefix_cons.1 hg).1
      exact absurd less (List.lt_irrefl _)
    | cons top folder =>
      exact ih ⟨folder, a, b, less, (List.cons_prefix_cons.1 hf).2, (List.cons_prefix_cons.1 hg).2⟩

/-- Among the paths with the same parts, the one without backslashes comes first: where another one
goes on with a backslash, its own name ends. -/
theorem not_before_of_isSlashed (plain : IsSlashed f) (same : parts g = parts f) : ¬Before g f := by
  rintro ⟨folder, a, b, less, ⟨g', rfl⟩, ⟨f', rfl⟩⟩
  have whole : b.toList.splitOn '\\' = [b.toList] :=
    List.splitOn_eq_singleton (plain b (by simp))
  simp only [parts, List.flatMap_append, List.append_assoc, List.append_cancel_left_eq,
    List.singleton_append, List.flatMap_cons, whole] at same
  obtain ⟨first, rest, split⟩ := List.exists_cons_of_ne_nil (List.splitOn_ne_nil '\\' a.toList)
  rw [split, List.cons_append] at same
  obtain rfl := (List.cons_eq_cons.1 same).1
  have joined : ['\\'].intercalate (a.toList.splitOn '\\') = a.toList :=
    List.intercalate_splitOn '\\'
  have begins : b.toList <+: a.toList := by
    rw [← joined, split]
    cases rest with
    | nil => simp
    | cons next rest =>
      rw [List.intercalate_cons_cons, List.append_assoc]
      exact List.prefix_append _ _
  exact begins.le (String.lt_iff_toList_lt.1 (lt_iff_bytes_lt.2 less))

/-- A file that is loaded as a resource, by its names below the base of resources and its text. -/
def resourceFile? (config : Config) (t : FileTree) (f : List String × ByteArray) :
    Option (List String × String) :=
  if IsJava f.1 then none
  else (f.1.dropPrefix? (resourceBase t)).bind fun names =>
    (textWithin config f.2).map fun text => (names, text)

def resourceFiles (config : Config) (root : String) (t : FileTree) : List (List String × String) :=
  (listing config root t).filterMap (resourceFile? config t)

theorem resourceOf?_eq (config : Config) (t : FileTree) (f : List String × ByteArray) :
    resourceOf? config t f = (resourceFile? config t f).map fun f => ⟨slashed f.1, f.2⟩ := by
  unfold resourceOf? resourceFile?
  split
  · rfl
  · simp only [Option.map_bind, Function.comp_def, Option.map_map]

theorem resourceFile?_eq_some_iff {file : List String × ByteArray} :
    resourceFile? config t file = some (names, text) ↔ ¬IsJava file.1 ∧
      file.1 = resourceBase t ++ names ∧ textWithin config file.2 = some text := by
  unfold resourceFile?
  split
  next java => simp [java]
  next other =>
    simp only [Option.bind_eq_some_iff, Option.map_eq_some_iff, List.dropPrefix?_eq_some_iff,
      beq_iff_eq, Prod.mk.injEq]
    constructor
    · rintro ⟨_, ⟨_, split, rfl⟩, _, within, rfl, rfl⟩
      exact ⟨other, split, within⟩
    · rintro ⟨-, split, within⟩
      exact ⟨names, ⟨_, split, rfl⟩, text, within, rfl, rfl⟩

theorem mem_resourceFiles_iff {root : String} (distinct : t.Distinct) :
    (names, text) ∈ resourceFiles config root t ↔
      ∃ content, Taken config root t (resourceBase t ++ names) content ∧
        ¬IsJava (resourceBase t ++ names) ∧ textWithin config content = some text := by
  simp only [resourceFiles, List.mem_filterMap, resourceFile?_eq_some_iff]
  constructor
  · rintro ⟨⟨_, content⟩, mem, other, rfl, within⟩
    exact ⟨content, (mem_listing_iff distinct).1 mem, other, within⟩
  · rintro ⟨content, taken, other, within⟩
    exact ⟨(_, content), (mem_listing_iff distinct).2 taken, other, rfl, within⟩

theorem resourceFiles_before (config : Config) (root : String) (distinct : t.Distinct) :
    (resourceFiles config root t).Pairwise fun f g => Before f.1 g.1 := by
  refine (listing_before root distinct).filterMap _ fun file file' before f hf g hg => ?_
  obtain ⟨-, split, -⟩ := resourceFile?_eq_some_iff.1 hf
  obtain ⟨-, split', -⟩ := resourceFile?_eq_some_iff.1 hg
  rw [split, split'] at before
  exact before.of_append

/-- The base of resources is a directory, and no file. -/
theorem names_ne_nil_of_taken {root : String}
    (taken : Taken config root (.directory es) (resourceBase (.directory es) ++ names) content) :
    names ≠ [] := by
  rintro rfl
  have present := taken.present
  rw [List.append_nil, resourceBase] at present
  split at present
  next found => simp [found] at present
  next => simp [FileTree.below?] at present

/-- What the names of some files can be told from. -/
theorem slashed_eq_iff_of_mem {root : String} {file file' : List String × String}
    (distinct : (FileTree.directory es).Distinct) (named : (FileTree.directory es).Named)
    (mem : file ∈ resourceFiles config root (.directory es))
    (mem' : file' ∈ resourceFiles config root (.directory es)) :
    slashed file.1 = slashed file'.1 ↔ parts file.1 = parts file'.1 := by
  have proper {file : List String × String}
      (mem : file ∈ resourceFiles config root (.directory es)) :
      file.1 ≠ [] ∧ ∀ name ∈ file.1, IsFileName name := by
    obtain ⟨content, taken, -⟩ := (mem_resourceFiles_iff distinct).1 mem
    exact ⟨names_ne_nil_of_taken taken, fun name mem =>
      named.isFileName taken.present name (List.mem_append_right _ mem)⟩
  exact slashed_eq_iff (proper mem).1 (proper mem').1 (proper mem).2 (proper mem').2

/-- The corpus of a directory has the files that are loaded as resources, under their names. -/
theorem resources_corpusOf (config : Config) (path : String) (t : FileTree) :
    (corpusOf (fatesIn config path t)).resources =
      (resourceFiles config ((Path.fileName? path).getD path) t).map
        fun f => ⟨slashed f.1, f.2⟩ := by
  rw [corpusOf_fatesIn, resourceFiles, List.map_filterMap]
  exact List.filterMap_congr fun file _ => resourceOf?_eq config t file

/-- The first of the files that a name stands for is found by it. -/
theorem findResource?_eq {files : List (List String × String)} {corpus : Corpus}
    (file : List String × String) (resources : corpus.resources = files.map fun f => ⟨slashed f.1, f.2⟩)
    (alike : ∀ g ∈ files, slashed g.1 = slashed file.1 ↔ parts g.1 = parts file.1) :
    corpus.findResource? (slashed file.1) =
      (files.find? fun g => parts g.1 = parts file.1).map fun g => ⟨slashed g.1, g.2⟩ := by
  rw [Corpus.findResource?, resources, List.find?_map]
  refine congrArg _ (List.find?_congr fun g mem => ?_)
  rw [Bool.eq_iff_iff, Function.comp_apply, beq_iff_eq, decide_eq_true_iff]
  exact alike g mem

/-- No file that comes before one without backslashes has the same parts. -/
theorem find?_parts_eq_some {files : List (List String × String)} {file : List String × String}
    (before : files.Pairwise fun f g => Before f.1 g.1) (mem : file ∈ files)
    (plain : IsSlashed file.1) : files.find? (fun g => parts g.1 = parts file.1) = some file := by
  obtain ⟨front, after, rfl⟩ := List.append_of_mem mem
  have others : ∀ g ∈ front, parts g.1 ≠ parts file.1 := fun g hg same =>
    not_before_of_isSlashed plain same ((List.pairwise_append.1 before).2.2 g hg file (by simp))
  exact List.find?_eq_some_iff_append.2 ⟨by simp, front, after, rfl, by simpa using others⟩

theorem nodup_parts {files : List (List String × String)}
    (before : files.Pairwise fun f g => Before f.1 g.1) (plain : ∀ f ∈ files, IsSlashed f.1) :
    (files.map fun f => parts f.1).Nodup := by
  rw [List.nodup_iff_pairwise_ne, List.pairwise_map]
  exact before.imp_of_mem fun _ hg before same => not_before_of_isSlashed (plain _ hg) same before

/-- Each resource of a directory stands for a file, in the order of the listing. Two of them have
one name exactly if their paths have the same parts, so that the names are different if there are no
backslashes in them. By the name of a resource the first file with the same parts is found, which is
the file of the resource itself if its path has no backslashes. -/
theorem load_resourceNames (here : fs.tree? path = some (.directory es))
    (distinct : (FileTree.directory es).Distinct) (named : (FileTree.directory es).Named) :
    ∃ (files : List (List String × String)) (loaded : Loaded), fs.load path config = .ok loaded ∧
      loaded.corpus.resources = files.map (fun f => ⟨slashed f.1, f.2⟩) ∧
      (files.Pairwise fun f g => Before f.1 g.1) ∧
      (∀ names text, (names, text) ∈ files ↔ ∃ content,
        Taken config ((Path.fileName? path).getD path) (.directory es)
          (resourceBase (.directory es) ++ names) content ∧
        ¬IsJava (resourceBase (.directory es) ++ names) ∧ textWithin config content = some text) ∧
      (∀ f ∈ files, ∀ g ∈ files, slashed f.1 = slashed g.1 ↔ parts f.1 = parts g.1) ∧
      ((loaded.corpus.resources.map (·.name)).Nodup ↔ (files.map fun f => parts f.1).Nodup) ∧
      ((∀ f ∈ files, IsSlashed f.1) → (loaded.corpus.resources.map (·.name)).Nodup) ∧
      (∀ f ∈ files, loaded.corpus.findResource? (slashed f.1) =
        (files.find? fun g => parts g.1 = parts f.1).map fun g => ⟨slashed g.1, g.2⟩) ∧
      ∀ f ∈ files, IsSlashed f.1 →
        loaded.corpus.findResource? (slashed f.1) = some ⟨slashed f.1, f.2⟩ := by
  obtain ⟨line, -, loads⟩ := exists_load config here
  have resources := resources_corpusOf config path (.directory es)
  have before := resourceFiles_before config ((Path.fileName? path).getD path) distinct
  have alike : ∀ f ∈ resourceFiles config ((Path.fileName? path).getD path) (.directory es),
      ∀ g ∈ resourceFiles config ((Path.fileName? path).getD path) (.directory es),
        slashed f.1 = slashed g.1 ↔ parts f.1 = parts g.1 :=
    fun f hf g hg => slashed_eq_iff_of_mem distinct named hf hg
  refine ⟨_, _, loads, resources, before, fun _ _ => mem_resourceFiles_iff distinct, alike, ?_⟩
  generalize resourceFiles config ((Path.fileName? path).getD path) (.directory es) = files at *
  have first : ∀ f ∈ files, _ := fun f hf =>
    findResource?_eq f resources fun g hg => alike g hg f hf
  have nodup : ((corpusOf (fatesIn config path (.directory es))).resources.map (·.name)).Nodup ↔
      (files.map fun f => parts f.1).Nodup := by
    rw [resources, List.map_map, List.nodup_iff_pairwise_ne, List.nodup_iff_pairwise_ne,
      List.pairwise_map, List.pairwise_map]
    exact List.Pairwise.iff_of_mem fun hf hg => not_congr (alike _ hf _ hg)
  refine ⟨nodup, fun plain => nodup.2 (nodup_parts before plain), first, fun f hf plain => ?_⟩
  rw [first f hf, find?_parts_eq_some before hf plain]
  rfl

/-- Two files with one name: one in a directory, and one with a backslash. -/
def oneNameTwice : List (String × FileTree) :=
  [("a", .directory [("b.txt", .file "y".toUTF8)]), ("a\\b.txt", .file "x".toUTF8)]

theorem oneNameTwice_distinct : (FileTree.directory oneNameTwice).Distinct := by
  refine .directory (by decide) ?_
  simp only [oneNameTwice, List.forall_mem_cons]
  exact ⟨.directory (by decide) (by simp [FileTree.Distinct.file]), .file _, by simp⟩

theorem load_oneNameTwice :
    (appWith oneNameTwice).tree? "/app" = some (.directory oneNameTwice) ∧
      (FileTree.directory oneNameTwice).Distinct ∧ (FileTree.directory oneNameTwice).Named ∧
      ∃ loaded, (appWith oneNameTwice).load "/app" .default = .ok loaded ∧
        loaded.corpus.findResource? "a/b.txt" = some ⟨"a/b.txt", "y"⟩ := by
  have here : (appWith oneNameTwice).tree? "/app" = some (.directory oneNameTwice) := rfl
  have named : (FileTree.directory oneNameTwice).Named := by
    refine .directory (by decide) ?_
    simp only [oneNameTwice, List.forall_mem_cons]
    exact ⟨.directory (by decide) (by simp [FileTree.Named.file]), .file _, by simp⟩
  obtain ⟨files, loaded, loads, -, -, mem, -, -, -, -, own⟩ :=
    @load_resourceNames (appWith oneNameTwice) "/app" .default oneNameTwice here
      oneNameTwice_distinct named
  have taken : (["a", "b.txt"], "y") ∈ files :=
    (mem _ _).2 ⟨"y".toUTF8, ⟨rfl, by decide, by decide⟩, by decide, by decide +kernel⟩
  have name : slashed ["a", "b.txt"] = "a/b.txt" := by decide +kernel
  have found := own _ taken (by decide)
  rw [name] at found
  exact ⟨here, oneNameTwice_distinct, named, loaded, loads, found⟩

/-- The names are not different, and one of the files is not found by its name. -/
theorem load_nameShared : ∃ loaded, (appWith oneNameTwice).load "/app" .default = .ok loaded ∧
    ¬(loaded.corpus.resources.map (·.name)).Nodup ∧
    ∃ r ∈ loaded.corpus.resources, loaded.corpus.findResource? r.name ≠ some r := by
  have here : (appWith oneNameTwice).tree? "/app" = some (.directory oneNameTwice) := rfl
  obtain ⟨line, -, loads⟩ := exists_load .default here
  have resources := resources_corpusOf .default "/app" (.directory oneNameTwice)
  have below : (["a", "b.txt"], "y") ∈ resourceFiles .default "app" (.directory oneNameTwice) :=
    (mem_resourceFiles_iff oneNameTwice_distinct).2
      ⟨"y".toUTF8, ⟨rfl, by decide, by decide⟩, by decide, by decide +kernel⟩
  have beside : (["a\\b.txt"], "x") ∈ resourceFiles .default "app" (.directory oneNameTwice) :=
    (mem_resourceFiles_iff oneNameTwice_distinct).2
      ⟨"x".toUTF8, ⟨rfl, by decide, by decide⟩, by decide, by decide +kernel⟩
  generalize corpusOf (fatesIn .default "/app" (.directory oneNameTwice)) = corpus at *
  have first : ⟨"a/b.txt", "y"⟩ ∈ corpus.resources :=
    resources ▸ List.mem_map.2 ⟨_, below, by decide +kernel⟩
  have second : ⟨"a/b.txt", "x"⟩ ∈ corpus.resources :=
    resources ▸ List.mem_map.2 ⟨_, beside, by decide +kernel⟩
  refine ⟨_, loads, fun nodup => ?_, ?_⟩
  · exact absurd (List.inj_on_of_nodup_map nodup first second rfl) (by decide)
  · by_contra none
    have own : ∀ r ∈ corpus.resources, corpus.findResource? r.name = some r := by simpa using none
    have found : corpus.findResource? "a/b.txt" = some ⟨"a/b.txt", "y"⟩ := own _ first
    have found' : corpus.findResource? "a/b.txt" = some ⟨"a/b.txt", "x"⟩ := own _ second
    rw [found] at found'
    simp at found'

end AppSurface
