import AppSurface.Proofs.ClassOrder
import AppSurface.Proofs.FileListing
import Mathlib.Data.List.TakeWhile

namespace AppSurface

variable {fs : FileSystem} {path : String} {config : Config} {names : List String}
  {content : ByteArray} {t : FileTree} {es : List (String × FileTree)}

theorem Path.extension?_append {stem ext : String} (nonempty : stem ≠ "")
    (plain : '.' ∉ ext.toList) : Path.extension? (stem ++ "." ++ ext) = some ext := by
  have back : (stem ++ "." ++ ext).toList.reverse =
      ext.toList.reverse ++ '.' :: stem.toList.reverse := by simp
  have tail : (ext.toList.reverse ++ '.' :: stem.toList.reverse).takeWhile (· != '.') =
      ext.toList.reverse := by
    rw [List.takeWhile_append_of_pos fun c hc => ?_]
    · simp
    · have : c ≠ '.' := fun equal => plain (equal ▸ List.mem_reverse.1 hc)
      simpa using this
  have length : 0 < stem.toList.length := List.length_pos_iff.2 (by simpa using nonempty)
  simp only [Path.extension?, back, tail]
  rw [if_neg (by simp; omega)]
  simp

theorem Path.exists_stem {name ext : String} (h : Path.extension? name = some ext) :
    '.' ∉ ext.toList ∧ ∃ stem, stem ≠ "" ∧ name = stem ++ "." ++ ext := by
  simp only [Path.extension?] at h
  split at h
  · cases h
  next long =>
    obtain rfl := Option.some.inj h
    -- read backwards, the name is the extension, then a dot, then at least one more character
    have whole := List.takeWhile_append_dropWhile (p := (· != '.')) (l := name.toList.reverse)
    have plain : ∀ c ∈ name.toList.reverse.takeWhile (· != '.'), c ≠ '.' := fun c hc => by
      simpa using List.mem_takeWhile_imp hc
    have stop := List.head?_dropWhile_not (· != '.') name.toList.reverse
    have length := congrArg List.length whole
    generalize name.toList.reverse.takeWhile (· != '.') = tail at *
    generalize name.toList.reverse.dropWhile (· != '.') = front at *
    simp only [List.length_append, List.length_reverse] at length
    obtain _ | ⟨dot, _ | ⟨last, stem⟩⟩ := front
    · simp only [List.length_nil] at length
      omega
    · simp only [List.length_cons, List.length_nil] at length
      omega
    · obtain rfl : dot = '.' := by simpa using stop
      refine ⟨by simpa using fun hc => plain '.' hc rfl, String.ofList (last :: stem).reverse, ?_, ?_⟩
      · simp [← String.toList_inj]
      · rw [← String.toList_inj, ← List.reverse_inj, ← whole]
        simp

theorem Path.extension?_eq_some_iff {name ext : String} : Path.extension? name = some ext ↔
    '.' ∉ ext.toList ∧ ∃ stem, stem ≠ "" ∧ name = stem ++ "." ++ ext := by
  refine ⟨exists_stem, ?_⟩
  rintro ⟨plain, stem, nonempty, rfl⟩
  exact extension?_append nonempty plain

/-- The last name ends in `.java`, with something before it. -/
def IsJava (names : List String) : Prop :=
  ∃ folder stem, stem ≠ "" ∧ names = folder ++ [stem ++ ".java"]

theorem isJava_iff {f : FoundFile} : f.isJava ↔ IsJava f.names := by
  simp only [FoundFile.isJava, beq_iff_eq, Option.bind_eq_some_iff, List.getLast?_eq_some_iff,
    Path.extension?_eq_some_iff, IsJava]
  constructor
  · rintro ⟨_, ⟨folder, names⟩, _, stem, nonempty, rfl⟩
    exact ⟨folder, stem, nonempty, by rw [names, String.append_assoc]; rfl⟩
  · rintro ⟨folder, stem, nonempty, names⟩
    exact ⟨_, ⟨folder, names⟩, by decide, stem, nonempty, by rw [String.append_assoc]; rfl⟩

instance (names : List String) : Decidable (IsJava names) :=
  decidable_of_iff _ (isJava_iff (f := ⟨"", names, .empty⟩))

/-- The text of a file that is no larger than allowed. -/
def textWithin (config : Config) (content : ByteArray) : Option String :=
  if content.size ≤ config.maxFileSize then String.fromUTF8? content else none

/-- The classes of a Java file. -/
def unitsOf (config : Config) (f : List String × ByteArray) : List ClassUnit :=
  if IsJava f.1 then ((textWithin config f.2).map Java.classes).getD [] else []

/-- The names that lead to the directory of the resources. -/
def resourceBase (t : FileTree) : List String :=
  match t.below? ["resources"] with
  | some (.directory _) => ["resources"]
  | _ => []

/-- Some names with slashes between them, and in place of the backslashes in them. -/
def slashed (names : List String) : String :=
  "/".intercalate (names.map fun name => name.map fun c => if c = '\\' then '/' else c)

/-- The resource that a file is, if it is no Java file and stands below the base of resources. -/
def resourceOf? (config : Config) (t : FileTree) (f : List String × ByteArray) : Option Resource :=
  if IsJava f.1 then none
  else (f.1.dropPrefix? (resourceBase t)).bind fun names =>
    (textWithin config f.2).map fun text => ⟨slashed names, text⟩

theorem map_intercalate {α β : Type} (f : α → β) (separator : List α) (parts : List (List α)) :
    (separator.intercalate parts).map f =
      (separator.map f).intercalate (parts.map fun part => part.map f) := by
  induction parts with
  | nil => rfl
  | cons part parts ih =>
    cases parts with
    | nil => simp
    | cons next parts => simp [List.intercalate_cons_cons, ih]

theorem resourceName_eq (names : List String) : resourceName names = slashed names := by
  rw [← String.toList_inj, resourceName, slashed, String.toList_ofList, String.toList_intercalate,
    String.toList_intercalate, map_intercalate, List.map_map, List.map_map]
  refine congrArg₂ _ rfl (List.map_congr_left fun name _ => ?_)
  simp

/-- The text of a file is the one within the limit, and without it nothing comes of the file. -/
theorem text_cases (config : Config) (f : FoundFile) :
    (∃ text, f.text config = .ok text ∧ textWithin config f.content = some text) ∨
      ∃ fate, f.text config = .error fate ∧ textWithin config f.content = none ∧
        fate.units = [] ∧ fate.resource? = none := by
  unfold FoundFile.text textWithin
  by_cases large : config.maxFileSize < f.content.size
  · rw [if_pos large, if_neg (by omega)]
    exact .inr ⟨_, rfl, rfl, rfl, rfl⟩
  · rw [if_neg large, if_pos (by omega)]
    cases String.fromUTF8? f.content with
    | some text => exact .inl ⟨text, rfl, rfl⟩
    | none => exact .inr ⟨_, rfl, rfl, rfl, rfl⟩

theorem resourceBase_eq (t : FileTree) : resourceBase t =
    if (t.child? resourcesName).any FileTree.isDirectory then [resourcesName] else [] := by
  have child : t.below? ["resources"] = t.child? resourcesName := by
    simp [FileTree.below?, resourcesName]
  rw [resourceBase, child]
  rcases t.child? resourcesName with _ | ⟨content⟩ | ⟨es⟩ <;> rfl

/-- What becomes of a file that is taken as a resource, named by `names`. -/
def FoundFile.asResource (f : FoundFile) (config : Config) (names : List String) : Fate :=
  match f.text config with
  | .ok text => .resource ⟨resourceName names, text⟩
  | .error fate => fate

theorem units_asResource (f : FoundFile) (names : List String) :
    (f.asResource config names).units = [] := by
  rcases text_cases config f with ⟨text, found, -⟩ | ⟨fate, lost, -, empty, -⟩
  · simp [FoundFile.asResource, found, Fate.units]
  · simp [FoundFile.asResource, lost, empty]

theorem resource?_asResource (f : FoundFile) (names : List String) :
    (f.asResource config names).resource? =
      (textWithin config f.content).map fun text => ⟨slashed names, text⟩ := by
  rcases text_cases config f with ⟨text, found, within⟩ | ⟨fate, lost, within, -, none⟩
  · simp [FoundFile.asResource, found, within, Fate.resource?, resourceName_eq]
  · simp [FoundFile.asResource, lost, within, none]

/-- A file that is no Java file is a resource if it stands below the base. -/
theorem otherFate_eq (f : FoundFile) (apart : Bool) :
    f.otherFate config apart =
      ((f.names.dropPrefix? (if apart then [resourcesName] else [])).map
        (f.asResource config)).getD .outside := by
  cases apart with
  | false =>
    simp only [FoundFile.otherFate, Bool.false_eq_true, if_false, List.dropPrefix?_nil]
    rfl
  | true =>
    cases names : f.names with
    | nil => simp [FoundFile.otherFate, names, List.dropPrefix?]
    | cons top names' =>
      by_cases below : top = resourcesName
      · simp only [FoundFile.otherFate, names, below, List.dropPrefix?, if_true,
          beq_self_eq_true]
        rfl
      · simp [FoundFile.otherFate, names, below, List.dropPrefix?]

theorem javaFate_eq (f : FoundFile) : (f.javaFate config).resource? = none ∧
    (f.javaFate config).units = ((textWithin config f.content).map Java.classes).getD [] := by
  unfold FoundFile.javaFate
  rcases text_cases config f with
    ⟨text, found, within⟩ | ⟨fate, lost, within, empty, none⟩
  · cases units : Java.classes text <;> simp [found, within, units, Fate.units, Fate.resource?]
  · simp [lost, within, empty, none]

/-- What becomes of a file, by its kind. -/
def FoundFile.fate (f : FoundFile) (config : Config) (apart : Bool) : Fate :=
  if f.isJava then f.javaFate config else f.otherFate config apart

theorem units_fate (f : FoundFile) (apart : Bool) :
    (f.fate config apart).units = unitsOf config (f.names, f.content) := by
  simp only [FoundFile.fate, unitsOf, ← isJava_iff (f := f)]
  cases f.isJava with
  | true => simpa using (javaFate_eq f).2
  | false =>
    simp only [Bool.false_eq_true, if_false, otherFate_eq]
    cases f.names.dropPrefix? _ with
    | none => rfl
    | some names => exact units_asResource f names

theorem resource?_fate (t : FileTree) (f : FoundFile) :
    (f.fate config ((t.child? resourcesName).any FileTree.isDirectory)).resource? =
      resourceOf? config t (f.names, f.content) := by
  simp only [FoundFile.fate, resourceOf?, ← isJava_iff (f := f), resourceBase_eq]
  cases f.isJava with
  | true => simpa using (javaFate_eq f).1
  | false =>
    simp only [Bool.false_eq_true, if_false, otherFate_eq]
    cases f.names.dropPrefix? _ with
    | none => rfl
    | some names => exact resource?_asResource f names

/-- The files as they are gone through: Java files first. -/
def javaFirst (files : List FoundFile) : List FoundFile :=
  files.filter (·.isJava) ++ files.filter fun f => !f.isJava

theorem javaFirst_perm (files : List FoundFile) : (javaFirst files).Perm files :=
  List.filter_append_perm _ files

theorem fatesIn_eq (t : FileTree) : fatesIn config path t =
    (javaFirst (foundFiles config path t)).map fun f =>
      (f, f.fate config ((t.child? resourcesName).any FileTree.isDirectory)) := by
  simp only [fatesIn, List.partition_eq_filter_filter, javaFirst, List.map_append]
  congr 1
  · refine List.map_congr_left fun f hf => ?_
    rw [FoundFile.fate, if_pos (List.mem_filter.mp hf).2]
  · refine List.map_congr_left fun f hf => ?_
    have other : f.isJava = false := by simpa using (List.mem_filter.mp hf).2
    simp [FoundFile.fate, other]

/-- Entries that contribute nothing can be left out. -/
theorem flatMap_filter {α β : Type} {l : List α} {keep : α → Bool} {f : α → List β}
    (nothing : ∀ a, keep a = false → f a = []) : (l.filter keep).flatMap f = l.flatMap f := by
  induction l with
  | nil => rfl
  | cons a l ih =>
    cases kept : keep a with
    | true => rw [List.filter_cons_of_pos kept, List.flatMap_cons, List.flatMap_cons, ih]
    | false =>
      rw [List.filter_cons_of_neg (by simp [kept]), List.flatMap_cons, nothing a kept, ih]
      rfl

theorem flatMap_filter_eq_nil {α β : Type} {l : List α} {keep : α → Bool} {f : α → List β}
    (nothing : ∀ a, keep a = true → f a = []) : (l.filter keep).flatMap f = [] :=
  List.flatMap_eq_nil_iff.mpr fun a ha => nothing a (List.mem_filter.mp ha).2

theorem unitsOf_javaFirst (files : List FoundFile) :
    (javaFirst files).flatMap (fun f => unitsOf config (f.names, f.content)) =
      files.flatMap fun f => unitsOf config (f.names, f.content) := by
  have others : ∀ f : FoundFile, f.isJava = false → unitsOf config (f.names, f.content) = [] := by
    intro f other
    simp [unitsOf, ← isJava_iff (f := f), other]
  rw [javaFirst, List.flatMap_append, flatMap_filter others,
    flatMap_filter_eq_nil fun f hf => others f (by simpa using hf), List.append_nil]

theorem resourceOf?_javaFirst (t : FileTree) (files : List FoundFile) :
    (javaFirst files).filterMap (fun f => resourceOf? config t (f.names, f.content)) =
      files.filterMap fun f => resourceOf? config t (f.names, f.content) := by
  have java : ∀ f : FoundFile, f.isJava = true →
      (resourceOf? config t (f.names, f.content)).toList = [] := by
    intro f java
    simp [resourceOf?, ← isJava_iff (f := f), java]
  rw [List.filterMap_eq_flatMap_toList, List.filterMap_eq_flatMap_toList, javaFirst,
    List.flatMap_append, flatMap_filter_eq_nil java,
    flatMap_filter fun f hf => java f (by simpa using hf), List.nil_append]

theorem corpusOf_foundFiles (t : FileTree) : corpusOf (fatesIn config path t) =
    .ofParts ((foundFiles config path t).flatMap fun f => unitsOf config (f.names, f.content))
      ((foundFiles config path t).filterMap fun f => resourceOf? config t (f.names, f.content)) := by
  simp only [corpusOf, fatesIn_eq, List.flatMap_map, List.filterMap_map, units_fate,
    Function.comp_def, resource?_fate, unitsOf_javaFirst, resourceOf?_javaFirst]

theorem foundFiles_eq (t : FileTree) : foundFiles config path t =
    (listing config ((Path.fileName? path).getD path) t).map
      fun f => ⟨f.1.foldl Path.join path, f.1, f.2⟩ := by
  unfold foundFiles listing
  split <;> rfl

theorem corpusOf_fatesIn (t : FileTree) : corpusOf (fatesIn config path t) =
    .ofParts ((listing config ((Path.fileName? path).getD path) t).flatMap (unitsOf config))
      ((listing config ((Path.fileName? path).getD path) t).filterMap (resourceOf? config t)) := by
  simp only [corpusOf_foundFiles, foundFiles_eq, List.flatMap_map, List.filterMap_map,
    Function.comp_def]

theorem load_parallel (fs : FileSystem) (path : String) (config : Config) (parallel : Bool) :
    fs.load path { config with parallel := parallel } = fs.load path config := by
  have same : ∀ t, FileTree.files { config with parallel := parallel } t =
      FileTree.files config t := FileTree.files_congr fun _ => rfl
  have found : ∀ t, foundFiles { config with parallel := parallel } path t =
      foundFiles config path t := fun t => by
    simp only [foundFiles, same]
    rfl
  simp only [FileSystem.load, fatesIn, found]
  rfl

/-- A directory is loaded as the corpus of its files, with their warnings and one more line. -/
theorem exists_load (config : Config) (here : fs.tree? path = some (.directory es)) :
    ∃ line, line.level = .info ∧ fs.load path config =
      .ok ⟨corpusOf (fatesIn config path (.directory es)),
        warningsOf config (fatesIn config path (.directory es)) ++ [line]⟩ := by
  simp only [FileSystem.load, here]
  exact ⟨_, rfl, rfl⟩

/-- A directory is loaded from the files taken from it, depth first: its classes are those of the
Java files, sorted by name, and its resources the other files below the base of resources. Whether
the work is spread over processors makes no difference. -/
theorem load_directory (here : fs.tree? path = some (.directory es))
    (distinct : (FileTree.directory es).Distinct) :
    ∃ taken : List (List String × ByteArray),
      (taken.Pairwise fun f g => Before f.1 g.1) ∧
      (∀ names content, (names, content) ∈ taken ↔
        Taken config ((Path.fileName? path).getD path) (.directory es) names content) ∧
      ∃ loaded, fs.load path config = .ok loaded ∧
        Corpus.NameOrder (taken.flatMap (unitsOf config)) loaded.corpus.classes ∧
        loaded.corpus.resources = taken.filterMap (resourceOf? config (.directory es)) ∧
        ∀ parallel, fs.load path { config with parallel := parallel } = .ok loaded := by
  refine ⟨listing config ((Path.fileName? path).getD path) (.directory es),
    listing_before _ distinct, fun _ _ => mem_listing_iff distinct, ?_⟩
  have loads : ∃ log, fs.load path config =
      .ok ⟨corpusOf (fatesIn config path (.directory es)), log⟩ := by
    simp only [FileSystem.load, here]
    exact ⟨_, rfl⟩
  obtain ⟨log, loads⟩ := loads
  rw [corpusOf_fatesIn] at loads
  exact ⟨_, loads, Corpus.nameOrder, rfl, fun parallel => (load_parallel ..).trans loads⟩

/-- A file system with these entries in the directory `/app`. -/
def appWith (es : List (String × FileTree)) : FileSystem := ⟨.directory [("app", .directory es)], []⟩

theorem load_hiddenAndExcluded :
    let text := FileTree.file "class A \x7b \x7d".toUTF8
    let es := [("resources", .directory [("r\\s.txt", text), (".git", text), (".h", text)]),
      (".d", .directory [("B.java", text)]), ("A.java", text), (".java", text), ("out.txt", text)]
    (appWith es).tree? "/app" = some (.directory es) ∧ (FileTree.directory es).Distinct ∧
      ∃ taken : List (List String × ByteArray),
        (taken.Pairwise fun f g => Before f.1 g.1) ∧
        (∀ names content, (names, content) ∈ taken ↔
          Taken .default "app" (.directory es) names content) ∧
        ∃ loaded, (appWith es).load "/app" .default = .ok loaded ∧
          Corpus.NameOrder (taken.flatMap (unitsOf .default)) loaded.corpus.classes ∧
          loaded.corpus.resources = taken.filterMap (resourceOf? .default (.directory es)) ∧
          ∀ parallel,
            (appWith es).load "/app" { Config.default with parallel := parallel } = .ok loaded := by
  intro text es
  have here : (appWith es).tree? "/app" = some (.directory es) := rfl
  have distinct : (FileTree.directory es).Distinct := by
    refine .directory (by decide) ?_
    simp only [es, text, List.forall_mem_cons]
    exact ⟨.directory (by decide) (by simp [FileTree.Distinct.file]),
      .directory (by decide) (by simp [FileTree.Distinct.file]), .file _, .file _, .file _, by simp⟩
  exact ⟨here, distinct, load_directory here distinct⟩

/-- A backslash in a file name is read as a slash, and a directory that a path reaches by going up
is not passed over by its own name. -/
theorem load_backslash_goingUp :
    (((appWith [("a\\b.txt", .file "x".toUTF8)]).load "/app" .default).toOption.map
        (·.corpus.resources) = some [⟨"a/b.txt", "x"⟩] ∧
      "/".intercalate ["a\\b.txt"] ≠ "a/b.txt") ∧
    let fs := appWith [("sub", .directory [("a.txt", .file "x".toUTF8)])]
    let config := { Config.default with excludePatterns := ["app"] }
    fs.canonical "/app/sub/.." = "/app" ∧ isExcluded config "app" ∧
      (fs.load "/app/sub/.." config).toOption.map (·.corpus.resources) =
        some [⟨"sub/a.txt", "x"⟩] := by
  refine ⟨⟨by decide +kernel, by decide⟩, by decide, by decide, by decide +kernel⟩

end AppSurface
