import AppSurface.Proofs.DirectoryLoad
import AppSurface.Proofs.FilePaths

namespace AppSurface

variable {fs : FileSystem} {path p q : String} {config : Config} {names : List String}
  {t : FileTree} {es : List (String × FileTree)} {f g : FoundFile} {l : LogLine}

/-- Exactly one of some statements holds. -/
def ExactlyOne : List Prop → Prop
  | [] => False
  | s :: statements => (s ∧ ∀ s' ∈ statements, ¬s') ∨ (¬s ∧ ExactlyOne statements)

/-- Exactly one entry of a list has a property. -/
def Once {α : Type} (property : α → Prop) (l : List α) : Prop :=
  ∃ before x after, l = before ++ x :: after ∧ property x ∧ ∀ y ∈ before ++ after, ¬property y

theorem Once.exists {α : Type} {property : α → Prop} {l : List α} (h : Once property l) :
    ∃ x ∈ l, property x := by
  obtain ⟨before, x, after, rfl, hx, -⟩ := h
  exact ⟨x, by simp, hx⟩

/-- The line warns that nothing is loaded from the file at `path`. -/
structure Warns (path : String) (l : LogLine) : Prop where
  level : l.level = .warn
  message : (∃ size limit : Nat, l.message = "Skipping " ++ path ++ " (" ++ toString size ++
      " bytes exceeds limit of " ++ toString limit ++ ")") ∨
    l.message = "Skipping non-UTF-8 file " ++ path ∨
    l.message = "No type declarations found in " ++ path

/-- No Java file, and not below the directory of the resources, though there is one. -/
def IsOutside (t : FileTree) (names : List String) : Prop :=
  ¬IsJava names ∧ (∃ es, t.below? ["resources"] = some (.directory es)) ∧
    ¬["resources"] <+: names

/-- Exactly one of four things is true of a file: it contributes a class, it contributes a resource,
it is passed over as standing outside of the resources, or the log has one warning of it. -/
def Accounted (config : Config) (t : FileTree) (log : List LogLine) (f : FoundFile) : Prop :=
  ExactlyOne [unitsOf config (f.names, f.content) ≠ [],
    ∃ r, resourceOf? config t (f.names, f.content) = some r,
    IsOutside t f.names, Once (Warns f.path) log]

section Messages

theorem paren_notMem_digits (n : Nat) : '(' ∉ (toString n).toList := by
  intro mem
  have digits : (toString n).toList = Nat.toDigits 10 n := Nat.toList_repr
  have digit : '('.isDigit := Nat.isDigit_of_mem_toDigits (by decide) (by decide) (digits ▸ mem)
  simp at digit

/-- What stands in front of the last occurrence of a character is determined. -/
theorem eq_of_append_cons_eq {α : Type} {c : α} {front front' rest rest' : List α}
    (h : front ++ c :: rest = front' ++ c :: rest') (last : c ∉ rest) (last' : c ∉ rest') :
    front = front' := by
  rcases List.append_eq_append_iff.1 h with ⟨between, rfl, tail⟩ | ⟨between, rfl, tail⟩
  · cases between with
    | nil => simp
    | cons d between => simp [(List.cons.inj tail).2] at last
  · cases between with
    | nil => simp
    | cons d between => simp [(List.cons.inj tail).2] at last'

/-- Behind the last parenthesis of the message stand the numbers. -/
theorem oversized_inj {size limit size' limit' : Nat}
    (h : "Skipping " ++ p ++ " (" ++ toString size ++ " bytes exceeds limit of " ++
        toString limit ++ ")" =
      "Skipping " ++ q ++ " (" ++ toString size' ++ " bytes exceeds limit of " ++
        toString limit' ++ ")") : p = q := by
  have split (p : String) (size limit : Nat) : ("Skipping " ++ p ++ " (" ++ toString size ++
      " bytes exceeds limit of " ++ toString limit ++ ")").toList =
        ("Skipping ".toList ++ (p.toList ++ [' '])) ++ '(' :: ((toString size).toList ++
          (" bytes exceeds limit of ".toList ++ ((toString limit).toList ++ [')']))) := by
    simp
  have numbers (size limit : Nat) : '(' ∉ (toString size).toList ++
      (" bytes exceeds limit of ".toList ++ ((toString limit).toList ++ [')'])) := by
    simp only [List.mem_append, not_or]
    exact ⟨paren_notMem_digits size, by decide, paren_notMem_digits limit, by decide⟩
  have chars := congrArg String.toList h
  rw [split, split] at chars
  have fronts := eq_of_append_cons_eq chars (numbers _ _) (numbers _ _)
  exact String.toList_inj.1 (List.append_cancel_right (List.append_cancel_left fronts))

/-- A text without slashes is nothing in front of one that holds a slash and starts both sides. -/
theorem eq_nil_of_append_eq {front s rest rest' : List Char} (slash : '/' ∈ front)
    (noSlash : '/' ∉ s) (h : front ++ rest = s ++ (front ++ rest')) : s = [] := by
  have place := congrArg (List.idxOf '/') h
  rw [List.idxOf_append_of_mem slash, List.idxOf_append_of_notMem noSlash,
    List.idxOf_append_of_mem slash] at place
  exact List.length_eq_zero_iff.1 (by omega)

/-- The two ways to begin a message do not agree on paths with the same directory. -/
theorem oversized_ne_notText {front x y : List Char} (slash : '/' ∈ front)
    (hp : p.toList = front ++ x) (hq : q.toList = front ++ y) (size limit : Nat) :
    "Skipping " ++ p ++ " (" ++ toString size ++ " bytes exceeds limit of " ++
      toString limit ++ ")" ≠ "Skipping non-UTF-8 file " ++ q := by
  intro h
  have skipping : "Skipping non-UTF-8 file ".toList =
      "Skipping ".toList ++ "non-UTF-8 file ".toList := by decide
  have chars := congrArg String.toList h
  simp only [String.toList_append, skipping, hp, hq, List.append_assoc,
    List.append_cancel_left_eq] at chars
  exact absurd (eq_nil_of_append_eq slash (by decide) chars) (by decide)

theorem ne_noTypes {s : String} (first : s.toList.head? = some 'S') :
    s ≠ "No type declarations found in " ++ q := by
  rintro rfl
  simp at first

/-- No warning is of two files below one directory. -/
theorem Warns.path_unique {front x y : List Char} (slash : '/' ∈ front)
    (hp : p.toList = front ++ x) (hq : q.toList = front ++ y) (h : Warns p l) (h' : Warns q l) :
    p = q := by
  have cancel {s : String} (h : s ++ p = s ++ q) : p = q := by
    have chars := congrArg String.toList h
    rw [String.toList_append, String.toList_append, List.append_cancel_left_eq] at chars
    exact String.toList_inj.1 chars
  rcases h.message with ⟨size, limit, m⟩ | m | m
  · rcases h'.message with ⟨size', limit', m'⟩ | m' | m'
    · exact oversized_inj (m.symm.trans m')
    · exact absurd (m.symm.trans m') (oversized_ne_notText slash hp hq size limit)
    · exact absurd (m.symm.trans m') (ne_noTypes (by simp))
  · rcases h'.message with ⟨size', limit', m'⟩ | m' | m'
    · exact absurd (m'.symm.trans m) (oversized_ne_notText slash hq hp size' limit')
    · exact cancel (m.symm.trans m')
    · exact absurd (m.symm.trans m') (ne_noTypes (by simp))
  · rcases h'.message with ⟨size', limit', m'⟩ | m' | m'
    · exact absurd (m'.symm.trans m) (ne_noTypes (by simp))
    · exact absurd (m'.symm.trans m) (ne_noTypes (by simp))
    · exact cancel (m.symm.trans m')

end Messages

section Fates

theorem Fate.warns {fate : Fate} (h : fate.warning? config path = some l) : Warns path l := by
  cases fate with
  | oversized size =>
    obtain rfl := Option.some.inj h
    exact ⟨rfl, .inl ⟨size, config.maxFileSize, rfl⟩⟩
  | notText =>
    obtain rfl := Option.some.inj h
    exact ⟨rfl, .inr (.inl rfl)⟩
  | noTypes =>
    obtain rfl := Option.some.inj h
    exact ⟨rfl, .inr (.inr rfl)⟩
  | classes | resource | outside => cases h

theorem dropPrefix?_eq_none_iff {base : List String} :
    names.dropPrefix? base = none ↔ ¬base <+: names := by
  rw [iff_not_comm, ← ne_eq, Option.ne_none_iff_exists']
  constructor
  · rintro ⟨rest, split⟩
    exact ⟨rest, List.dropPrefix?_eq_some_iff.2 ⟨base, split.symm, beq_self_eq_true _⟩⟩
  · rintro ⟨rest, found⟩
    obtain ⟨base', split, same⟩ := List.dropPrefix?_eq_some_iff.1 found
    exact ⟨rest, by rw [split, eq_of_beq same]⟩

theorem isOutside_iff : IsOutside t f.names ↔
    f.isJava = false ∧ f.names.dropPrefix? (resourceBase t) = none := by
  have java : ¬IsJava f.names ↔ f.isJava = false := by
    rw [← isJava_iff, Bool.not_eq_true]
  rw [IsOutside, java, dropPrefix?_eq_none_iff, resourceBase]
  rcases t.below? ["resources"] with _ | content | es <;> simp

/-- What becomes of a file in the directory `t`. -/
def FoundFile.fateIn (f : FoundFile) (config : Config) (t : FileTree) : Fate :=
  f.fate config ((t.child? resourcesName).any FileTree.isDirectory)

theorem text_eq (config : Config) (f : FoundFile) : (∃ text, f.text config = .ok text) ∨
    f.text config = .error (.oversized f.content.size) ∨ f.text config = .error .notText := by
  unfold FoundFile.text
  split
  · exact .inr (.inl rfl)
  · cases String.fromUTF8? f.content with
    | some text => exact .inl ⟨text, rfl⟩
    | none => exact .inr (.inr rfl)

theorem asResource_cases (config : Config) (f : FoundFile) (names : List String) :
    f.asResource config names ≠ .outside ∧ f.asResource config names ≠ .classes [] := by
  unfold FoundFile.asResource
  rcases text_eq config f with ⟨text, found⟩ | large | binary
  · simp [found]
  · simp [large]
  · simp [binary]

theorem javaFate_cases (config : Config) (f : FoundFile) :
    f.javaFate config ≠ .outside ∧ f.javaFate config ≠ .classes [] := by
  unfold FoundFile.javaFate
  rcases text_eq config f with ⟨text, found⟩ | large | binary
  · cases units : Java.classes text <;> simp [found, units]
  · simp [large]
  · simp [binary]

/-- Only a file outside is passed over, and no file counts as loaded without any class. -/
theorem fateIn_cases (config : Config) (t : FileTree) (f : FoundFile) :
    (f.fateIn config t = .outside ↔ IsOutside t f.names) ∧ f.fateIn config t ≠ .classes [] := by
  rw [FoundFile.fateIn, FoundFile.fate, isOutside_iff, resourceBase_eq]
  cases java : f.isJava with
  | true =>
    obtain ⟨loaded, some⟩ := javaFate_cases config f
    exact ⟨by simp [loaded], some⟩
  | false =>
    simp only [Bool.false_eq_true, if_false, otherFate_eq]
    cases below : f.names.dropPrefix? _ with
    | none => simp
    | some names =>
      obtain ⟨loaded, some⟩ := asResource_cases config f names
      exact ⟨by simp [loaded], some⟩

theorem Fate.exactlyOne {fate : Fate} (some : fate ≠ .classes []) :
    ExactlyOne [fate.units ≠ [], ∃ r, fate.resource? = .some r, fate = .outside,
      ∃ l, fate.warning? config path = .some l] := by
  cases fate with
  | classes units => simpa [ExactlyOne, Fate.units, Fate.resource?, Fate.warning?] using some
  | _ => simp [ExactlyOne, Fate.units, Fate.resource?, Fate.warning?]

end Fates

/-- Values yielded by the entries of a list: if no value suits two entries, then one value suits an
entry if the entry yields one, and none does otherwise. -/
theorem once_filterMap_iff {α β : Type} {suits : α → β → Prop} {yield : α → Option β} {l : List α}
    {rest : List β} (sound : ∀ a b, yield a = some b → suits a b)
    (apart : l.Pairwise fun a a' => ∀ b, ¬(suits a b ∧ suits a' b))
    (none : ∀ a, ∀ b ∈ rest, ¬suits a b) {a : α} (ha : a ∈ l) :
    Once (suits a) (l.filterMap yield ++ rest) ↔ ∃ b, yield a = some b := by
  obtain ⟨before, after, rfl⟩ := List.append_of_mem ha
  obtain ⟨-, behind, front⟩ := List.pairwise_append.1 apart
  have others : ∀ b ∈ before.filterMap yield ++ (after.filterMap yield ++ rest), ¬suits a b := by
    intro b hb suit
    rcases List.mem_append.1 hb with hb | hb
    · obtain ⟨a', ha', found⟩ := List.mem_filterMap.1 hb
      exact front a' ha' a List.mem_cons_self b ⟨sound a' b found, suit⟩
    · rcases List.mem_append.1 hb with hb | hb
      · obtain ⟨a', ha', found⟩ := List.mem_filterMap.1 hb
        exact (List.pairwise_cons.1 behind).1 a' ha' b ⟨suit, sound a' b found⟩
      · exact none a b hb suit
  rw [List.filterMap_append, List.append_assoc]
  cases found : yield a with
  | none =>
    rw [List.filterMap_cons_none found]
    refine ⟨fun once => ?_, nofun⟩
    obtain ⟨b, hb, suit⟩ := once.exists
    exact absurd suit (others b hb)
  | some b =>
    rw [List.filterMap_cons_some found]
    exact ⟨fun _ => ⟨b, rfl⟩, fun _ => ⟨_, b, _, rfl, sound a b found, others⟩⟩

theorem tree?_ne_empty (here : fs.tree? path = some t) : path ≠ "" := by
  rintro rfl
  simp [FileSystem.tree?, FileSystem.locate] at here

theorem mem_foundFiles_iff (distinct : t.Distinct) : f ∈ foundFiles config path t ↔
    f.path = f.names.foldl Path.join path ∧
      Taken config ((Path.fileName? path).getD path) t f.names f.content := by
  rw [foundFiles_eq, List.mem_map, ← mem_listing_iff distinct]
  constructor
  · rintro ⟨⟨names, content⟩, mem, rfl⟩
    exact ⟨rfl, mem⟩
  · rintro ⟨shown, mem⟩
    exact ⟨_, mem, by rw [← shown]⟩

theorem Taken.names_ne_nil {root : String} {content : ByteArray}
    (taken : Taken config root (.directory es) names content) : names ≠ [] :=
  (FileTree.isDirectory_iff taken.present).1 rfl

theorem Before.ne {f g : List String} (before : Before f g) : f ≠ g := by
  rintro rfl
  obtain ⟨folder, a, b, less, ha, hb⟩ := before
  have shared := List.prefix_of_prefix_length_le ha hb (by simp)
  have entry := List.append_cancel_left (shared.eq_of_length (by simp))
  exact absurd less (List.singleton_inj.1 entry ▸ List.lt_irrefl _)

/-- No line warns of two of the files. -/
theorem foundFiles_apart (config : Config) (nonempty : path ≠ "")
    (distinct : (FileTree.directory es).Distinct) (named : (FileTree.directory es).Named) :
    (foundFiles config path (.directory es)).Pairwise
      fun f g => ∀ l, ¬(Warns f.path l ∧ Warns g.path l) := by
  have apart : (foundFiles config path (.directory es)).Pairwise fun f g => f.names ≠ g.names := by
    rw [foundFiles_eq, List.pairwise_map]
    exact (listing_before _ distinct).imp Before.ne
  refine apart.imp_of_mem fun {f g} hf hg ne l both => ne ?_
  obtain ⟨shown, taken⟩ := (mem_foundFiles_iff distinct).1 hf
  obtain ⟨shown', taken'⟩ := (mem_foundFiles_iff distinct).1 hg
  have proper := named.isFileName taken.present
  have proper' := named.isFileName taken'.present
  have chars := Path.toList_foldl_join nonempty proper taken.names_ne_nil
  have chars' := Path.toList_foldl_join nonempty proper' taken'.names_ne_nil
  have same := both.1.path_unique (Path.slash_mem_withSlash _) (shown ▸ chars) (shown' ▸ chars')
    both.2
  rw [shown, shown'] at same
  exact Path.foldl_join_inj nonempty proper proper' taken.names_ne_nil taken'.names_ne_nil same

/-- A file is named by one warning, or by none, depending on what becomes of it. -/
theorem once_warns_iff (config : Config) {line : LogLine} (nonempty : path ≠ "")
    (distinct : (FileTree.directory es).Distinct) (named : (FileTree.directory es).Named)
    (info : line.level = .info) (hf : f ∈ foundFiles config path (.directory es)) :
    Once (Warns f.path) (warningsOf config (fatesIn config path (.directory es)) ++ [line]) ↔
      ∃ l, (f.fateIn config (.directory es)).warning? config f.path = some l := by
  have lines : warningsOf config (fatesIn config path (.directory es)) =
      (javaFirst (foundFiles config path (.directory es))).filterMap fun f =>
        (f.fateIn config (.directory es)).warning? config f.path := by
    rw [warningsOf, fatesIn_eq, List.filterMap_map]
    rfl
  have turns := javaFirst_perm (foundFiles config path (.directory es))
  have apart := (turns.pairwise_iff fun apart l both => apart l both.symm).mpr
    (foundFiles_apart config nonempty distinct named)
  rw [lines]
  refine once_filterMap_iff (fun _ _ => Fate.warns) apart (fun f l hl warns => ?_)
    (turns.mem_iff.mpr hf)
  have level := warns.level
  rw [List.mem_singleton.1 hl, info] at level
  cases level

/-- No file that is found in a directory is lost silently: the corpus is made of what the files
contribute, every file is accounted for, and each warning is the only one about one of the files. -/
theorem load_accountsForFiles (here : fs.tree? path = some (.directory es))
    (distinct : (FileTree.directory es).Distinct) (named : (FileTree.directory es).Named) :
    let files := foundFiles config path (.directory es)
    ∃ loaded, fs.load path config = .ok loaded ∧
      (∀ f, f ∈ files ↔ f.path = f.names.foldl Path.join path ∧
        Taken config ((Path.fileName? path).getD path) (.directory es) f.names f.content) ∧
      Corpus.NameOrder (files.flatMap fun f => unitsOf config (f.names, f.content))
        loaded.corpus.classes ∧
      loaded.corpus.resources =
        files.filterMap (fun f => resourceOf? config (.directory es) (f.names, f.content)) ∧
      (∀ f ∈ files, Accounted config (.directory es) loaded.log f) ∧
      ∀ l ∈ loaded.log, l.level = .warn →
        ∃ f ∈ files, Warns f.path l ∧ Once (Warns f.path) loaded.log := by
  intro files
  obtain ⟨line, info, loads⟩ := exists_load config here
  have once : ∀ f ∈ files, _ := fun f hf =>
    once_warns_iff config (tree?_ne_empty here) distinct named info hf
  rw [corpusOf_foundFiles] at loads
  refine ⟨_, loads, fun f => mem_foundFiles_iff distinct, Corpus.nameOrder, rfl, ?_, ?_⟩
  · intro f hf
    obtain ⟨outside, some⟩ := fateIn_cases config (.directory es) f
    rw [Accounted, once f hf, ← units_fate f ((FileTree.child? (.directory es) resourcesName).any
      FileTree.isDirectory), ← resource?_fate, ← outside]
    exact Fate.exactlyOne some
  · intro l hl warns
    rcases List.mem_append.1 hl with hl | hl
    · obtain ⟨_, mem, found⟩ := List.mem_filterMap.1 hl
      rw [fatesIn_eq] at mem
      obtain ⟨f, turn, rfl⟩ := List.mem_map.1 mem
      have hf := (javaFirst_perm _).mem_iff.1 turn
      exact ⟨f, hf, Fate.warns found, (once f hf).2 ⟨l, found⟩⟩
    · rw [List.mem_singleton.1 hl, info] at warns
      cases warns

theorem load_oneOfEach :
    let es := [("A.java", FileTree.file "class A \x7b \x7d".toUTF8),
      ("Empty.java", .file "".toUTF8), ("out.txt", .file "x".toUTF8),
      ("resources", .directory [("a.txt", .file "x".toUTF8),
        ("long.txt", .file "0123456789ab".toUTF8), ("raw", .file ⟨#[255]⟩)])]
    let t := FileTree.directory es
    let config := { Config.default with maxFileSize := 11 }
    let files := foundFiles config "/app" t
    (appWith es).tree? "/app" = some t ∧ t.Distinct ∧ t.Named ∧
      ∃ loaded, (appWith es).load "/app" config = .ok loaded ∧
        Corpus.NameOrder (files.flatMap fun f => unitsOf config (f.names, f.content))
          loaded.corpus.classes ∧
        (∀ f ∈ files, Accounted config t loaded.log f) ∧
        ∀ l ∈ loaded.log, l.level = .warn →
          ∃ f ∈ files, Warns f.path l ∧ Once (Warns f.path) loaded.log := by
  intro es t config files
  have here : (appWith es).tree? "/app" = some t := rfl
  have distinct : t.Distinct := by
    refine .directory (by decide) ?_
    simp only [es, List.forall_mem_cons]
    exact ⟨.file _, .file _, .file _, .directory (by decide) (by simp [FileTree.Distinct.file]),
      by simp⟩
  have named : t.Named := by
    refine .directory (by decide) ?_
    simp only [es, List.forall_mem_cons]
    exact ⟨.file _, .file _, .file _, .directory (by decide) (by simp [FileTree.Named.file]),
      by simp⟩
  obtain ⟨loaded, loads, -, classes, -, accounted, warnings⟩ :=
    load_accountsForFiles here distinct named
  exact ⟨here, distinct, named, loaded, loads, classes, accounted, warnings⟩

end AppSurface
