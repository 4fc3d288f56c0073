import AppSurface.Proofs.DirectoryLoad

namespace AppSurface

variable {fs : FileSystem} {path root : String} {config tighter : Config}
  {es : List (String × FileTree)}

/-- The same names are excluded, and maybe more, and files are loaded up to the same size, or only
up to a smaller one. -/
structure Config.Tightens (config tighter : Config) : Prop where
  excludes : config.excludePatterns ⊆ tighter.excludePatterns
  limit : tighter.maxFileSize ≤ config.maxFileSize

/-- None of these names is excluded. -/
def Config.allows (config : Config) (names : List String) : Bool :=
  names.all fun name => !isExcluded config name

/-- A file of a directory of the name `root` is neither excluded nor too large. -/
def Config.Keeps (config : Config) (root : String) (f : List String × ByteArray) : Prop :=
  (∀ name ∈ root :: f.1, name ∉ builtInExcludes ∧ name ∉ config.excludePatterns) ∧
    f.2.size ≤ config.maxFileSize

instance (config : Config) (root : String) : DecidablePred (config.Keeps root) :=
  fun _ => inferInstanceAs (Decidable (_ ∧ _))

theorem Config.keeps_iff {f : List String × ByteArray} : config.Keeps root f ↔
    config.allows (root :: f.1) = true ∧ f.2.size ≤ config.maxFileSize := by
  simp only [Keeps, allows, List.all_eq_true, Bool.not_eq_true', isExcluded_eq_false_iff]

theorem Config.Tightens.isExcluded (h : config.Tightens tighter) {name : String}
    (excluded : isExcluded config name = true) : isExcluded tighter name = true := by
  simp only [AppSurface.isExcluded, Bool.or_eq_true, List.contains_iff_mem] at excluded ⊢
  exact excluded.imp_right fun pattern => h.excludes pattern

namespace FileTree

theorem isSkipped_tightened (h : config.Tightens tighter) (name : String) (t : FileTree) :
    isSkipped tighter name t = (isSkipped config name t || isExcluded tighter name) := by
  cases excluded : isExcluded config name with
  | true => simp [isSkipped, excluded, h.isExcluded excluded]
  | false => simp [isSkipped, excluded, Bool.or_comm]

/-- An entry of a listed directory, without the files below it that the settings exclude. -/
def prune (config : Config) (e : String × List (List String × ByteArray)) :
    String × List (List String × ByteArray) :=
  (e.1, e.2.filter fun f => config.allows f.1)

/-- Files are left out with the entry that leads to them, or from below it. -/
theorem flatMap_prune (entries : List (String × List (List String × ByteArray))) :
    ((entries.filter fun e => !isExcluded tighter e.1).map (prune tighter)).flatMap
        (fun e => e.2.map fun f => (e.1 :: f.1, f.2)) =
      (entries.flatMap fun e => e.2.map fun f => (e.1 :: f.1, f.2)).filter
        fun f => tighter.allows f.1 := by
  induction entries with
  | nil => rfl
  | cons e entries ih =>
    rw [List.flatMap_cons, List.filter_append, ← ih, List.filter_map]
    cases excluded : isExcluded tighter e.1 <;>
      simp [excluded, prune, Function.comp_def, Config.allows]

mutual

theorem files_tightened (h : config.Tightens tighter) : ∀ t, files tighter t =
    (files config t).filter fun f => tighter.allows f.1
  | .file content => by
    rw [files, files]
    rfl
  | .directory es => by
    have sorted (entries : List (String × List (List String × ByteArray))) :
        ((entries.map (prune tighter)).mergeSort fun a b => decide (a.1 ≤ b.1)) =
          (entries.mergeSort fun a b => decide (a.1 ≤ b.1)).map (prune tighter) :=
      (List.map_mergeSort (f := prune tighter) fun _ _ _ _ => rfl).symm
    rw [files, files, filesOfEntries_tightened h es, sorted, ← filter_mergeSort Prod.fst,
      flatMap_prune]

theorem filesOfEntries_tightened (h : config.Tightens tighter) : ∀ es, filesOfEntries tighter es =
    ((filesOfEntries config es).filter fun e => !isExcluded tighter e.1).map (prune tighter)
  | [] => by simp [filesOfEntries]
  | (name, t) :: es => by
    rw [filesOfEntries, filesOfEntries, isSkipped_tightened h, filesOfEntries_tightened h es,
      files_tightened h t]
    cases skipped : isSkipped config name t <;> cases excluded : isExcluded tighter name <;>
      simp [excluded, prune]

end

end FileTree

theorem listing_tightened (h : config.Tightens tighter) (root : String) (t : FileTree) :
    listing tighter root t =
      (listing config root t).filter fun f => tighter.allows (root :: f.1) := by
  unfold listing
  cases before : isExcluded config root with
  | true => simp [h.isExcluded before]
  | false =>
    cases excluded : isExcluded tighter root with
    | true => simp [Config.allows, excluded]
    | false => simp [FileTree.files_tightened h, Config.allows, excluded]

theorem textWithin_tightened (h : config.Tightens tighter) (content : ByteArray) :
    textWithin tighter content =
      if content.size ≤ tighter.maxFileSize then textWithin config content else none := by
  unfold textWithin
  split
  next fits => rw [if_pos (fits.trans h.limit)]
  next => rfl

theorem unitsOf_tightened (h : config.Tightens tighter) (f : List String × ByteArray) :
    unitsOf tighter f = if f.2.size ≤ tighter.maxFileSize then unitsOf config f else [] := by
  unfold unitsOf
  rw [textWithin_tightened h]
  split <;> split <;> rfl

theorem resourceOf?_tightened (h : config.Tightens tighter) (t : FileTree)
    (f : List String × ByteArray) : resourceOf? tighter t f =
      if f.2.size ≤ tighter.maxFileSize then resourceOf? config t f else none := by
  unfold resourceOf?
  rw [textWithin_tightened h]
  split <;> split <;> simp

/-- The files that are loaded under both settings. -/
def keptFiles (config tighter : Config) (root : String) (t : FileTree) :
    List (List String × ByteArray) :=
  (listing config root t).filter fun f => tighter.Keeps root f

theorem keptFiles_eq (h : config.Tightens tighter) (root : String) (t : FileTree) :
    keptFiles config tighter root t =
      (listing tighter root t).filter fun f => decide (f.2.size ≤ tighter.maxFileSize) := by
  rw [listing_tightened h, List.filter_filter, keptFiles]
  refine List.filter_congr fun f _ => ?_
  rw [Bool.eq_iff_iff, Bool.and_eq_true, decide_eq_true_iff, decide_eq_true_iff, and_comm,
    Config.keeps_iff]

theorem flatMap_unitsOf_tightened (h : config.Tightens tighter) (root : String) (t : FileTree) :
    (listing tighter root t).flatMap (unitsOf tighter) =
      (keptFiles config tighter root t).flatMap (unitsOf config) := by
  rw [keptFiles_eq h]
  induction listing tighter root t with
  | nil => rfl
  | cons f files ih =>
    rw [List.flatMap_cons, ih, unitsOf_tightened h, List.filter_cons]
    by_cases fits : f.2.size ≤ tighter.maxFileSize <;> simp [fits]

theorem filterMap_resourceOf?_tightened (h : config.Tightens tighter) (root : String)
    (t : FileTree) : (listing tighter root t).filterMap (resourceOf? tighter t) =
      (keptFiles config tighter root t).filterMap (resourceOf? config t) := by
  rw [keptFiles_eq h, List.filterMap_filter]
  simp only [decide_eq_true_eq, ← resourceOf?_tightened h]

theorem corpusOf_tightened (h : config.Tightens tighter) (path : String) (t : FileTree) :
    corpusOf (fatesIn tighter path t) =
      .ofParts
        ((keptFiles config tighter ((Path.fileName? path).getD path) t).flatMap (unitsOf config))
        ((keptFiles config tighter ((Path.fileName? path).getD path) t).filterMap
          (resourceOf? config t)) := by
  rw [corpusOf_fatesIn, flatMap_unitsOf_tightened h, filterMap_resourceOf?_tightened h]

/-- With more names excluded or a smaller limit on sizes, a directory is loaded as what remains of
its files: the classes and resources of the other files are left out, and nothing else about them
changes, neither their order nor the names of the resources. -/
theorem load_tightened (here : fs.tree? path = some (.directory es))
    (tightens : config.Tightens tighter) :
    ∃ loaded loaded', fs.load path config = .ok loaded ∧ fs.load path tighter = .ok loaded' ∧
      loaded'.corpus.classes.Sublist loaded.corpus.classes ∧
      loaded'.corpus.resources.Sublist loaded.corpus.resources ∧
      let kept := keptFiles config tighter ((Path.fileName? path).getD path) (.directory es)
      Corpus.NameOrder (kept.flatMap (unitsOf config)) loaded'.corpus.classes ∧
        loaded'.corpus.resources = kept.filterMap (resourceOf? config (.directory es)) := by
  obtain ⟨_, -, loads⟩ := exists_load config here
  obtain ⟨_, -, loads'⟩ := exists_load tighter here
  rw [corpusOf_fatesIn] at loads
  rw [corpusOf_tightened tightens] at loads'
  refine ⟨_, _, loads, loads', ?_, ?_, Corpus.nameOrder, rfl⟩
  · exact sublist_mergeSort_of_sublist ClassUnit.fullName (List.filter_sublist.flatMap _)
  · exact List.filter_sublist.filterMap _

theorem load_withoutDrafts :
    let one := "class A \x7b \x7d".toUTF8
    let two := "class B \x7b \x7d".toUTF8
    let long := "0123456789ab".toUTF8
    let es := [("A.java", FileTree.file one), ("drafts", .directory [("B.java", .file two)]),
      ("long.txt", .file long)]
    let t := FileTree.directory es
    let tighter := { Config.default with excludePatterns := ["drafts"], maxFileSize := 11 }
    (appWith es).tree? "/app" = some t ∧ Config.default.Tightens tighter ∧
      tighter.Keeps "app" (["A.java"], one) ∧
      (Config.default.Keeps "app" (["drafts", "B.java"], two) ∧
        ¬ tighter.Keeps "app" (["drafts", "B.java"], two)) ∧
      (Config.default.Keeps "app" (["long.txt"], long) ∧
        ¬ tighter.Keeps "app" (["long.txt"], long)) ∧
      ∃ loaded loaded', (appWith es).load "/app" .default = .ok loaded ∧
        (appWith es).load "/app" tighter = .ok loaded' ∧
        loaded'.corpus.classes.Sublist loaded.corpus.classes ∧
        loaded'.corpus.resources.Sublist loaded.corpus.resources ∧
        loaded'.corpus.resources =
          (keptFiles .default tighter "app" t).filterMap (resourceOf? .default t) := by
  intro one two long es t tighter
  have here : (appWith es).tree? "/app" = some t := rfl
  have tightens : Config.default.Tightens tighter := ⟨by decide, by decide⟩
  obtain ⟨loaded, loaded', loads, loads', classes, resources, -, kept⟩ :=
    load_tightened here tightens
  exact ⟨here, tightens, by decide, by decide, by decide, loaded, loaded', loads, loads',
    classes, resources, kept⟩

end AppSurface
