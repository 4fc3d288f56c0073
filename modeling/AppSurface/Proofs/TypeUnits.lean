import AppSurface.Proofs.DeclarationPlaces
import AppSurface.Proofs.TypeMembers

namespace AppSurface.Java

/-- A type is declared at the top of a file, or directly in another; the types around it are given
innermost first. -/
inductive Declared (root : SyntaxNode) : List SyntaxNode → SyntaxNode → Prop
  | top {d : SyntaxNode} : d ∈ root.children → d.IsType → Declared root [] d
  | nested {path : List SyntaxNode} {o d : SyntaxNode} :
    Declared root path o → Member o d → d.IsType → Declared root (o :: path) d

/-- The names in the package declarations of a file, of which there is one at most in Java. -/
def packageNames (root : SyntaxNode) : List SyntaxNode :=
  (root.children.filter (·.kind = "package_declaration")).flatMap fun d =>
    d.children.filter fun c => c.kind = "identifier" ∨ c.kind = "scoped_identifier"

/-- A class with the type it is of, the types around that, innermost first, and the members of its
body. -/
structure TypeUnit where
  path : List SyntaxNode
  type : SyntaxNode
  members : List SyntaxNode
  unit : ClassUnit

/-- Which classes a file has to give, and what has to be in each. -/
structure Attribution (source : List Char) (root : SyntaxNode) (entries : List TypeUnit) :
    Prop where
  declared : ∀ path d, (∃ e ∈ entries, e.path = path ∧ e.type = d) ↔ Declared root path d
  inOrder : entries.Pairwise fun e e' => e.type.first < e'.type.first
  members : ∀ e ∈ entries, ∀ m, m ∈ e.members ↔ Member e.type m
  membersInOrder : ∀ e ∈ entries, e.members.Pairwise fun m m' => m.stop ≤ m'.first
  /-- No member is listed twice, in one class or in two. -/
  unshared : (entries.flatMap (·.members)).Pairwise fun m m' => m.first ≠ m'.first
  simpleName : ∀ e ∈ entries, ∃ name, e.type.child? "name" = some name ∧
    e.unit.simpleName.toList = name.text source
  package : ∀ e ∈ entries,
    e.unit.package.toList = ((packageNames root).head?.map (·.text source)).getD []
  methods : ∀ e ∈ entries, e.unit.methods =
    (e.members.filter (·.IsMethod)).map (·.fieldText source "name")
  fields : ∀ e ∈ entries, e.unit.fields =
    (e.members.filter (·.IsField)).flatMap (·.declaredFields source)
  topName : ∀ e ∈ entries, e.path = [] → e.unit.fullName =
    if e.unit.package = "" then e.unit.simpleName else e.unit.package ++ "." ++ e.unit.simpleName
  topSource : ∀ e ∈ entries, e.path = [] → ∃ t, root.children.find? (·.IsType) = some t ∧
    e.unit.source.toList = source.take t.first ++ e.type.text source
  nested : ∀ e ∈ entries, ∀ o path, e.path = o :: path → ∃ outer ∈ entries,
    outer.path = path ∧ outer.type = o ∧
    e.unit.fullName = outer.unit.fullName ++ "." ++ e.unit.simpleName ∧
    e.unit.source.toList = e.type.text source ∧
    e.unit.source.toList <:+: outer.unit.source.toList

def outerName (source : List Char) (package : String) : List SyntaxNode → Option String
  | [] => none
  | o :: path =>
    some (qualified package (outerName source package path) (o.fieldText source "name"))

def headerOf (root : SyntaxNode) : Nat :=
  ((root.children.find? (·.IsType)).map (·.first)).getD 0

def sourceOf (source : List Char) (header : Nat) : List SyntaxNode → SyntaxNode → List Char
  | [], d => source.take header ++ d.text source
  | _ :: _, d => d.text source

def entryOf (source : List Char) (root : SyntaxNode) (path : List SyntaxNode) (d : SyntaxNode) :
    TypeUnit where
  path := path
  type := d
  members := d.memberNodes
  unit :=
    { fullName := qualified (packageName source root)
        (outerName source (packageName source root) path) (d.fieldText source "name")
      simpleName := d.fieldText source "name"
      package := packageName source root
      methods := (d.memberNodes.filter (·.IsMethod)).map (·.fieldText source "name")
      fields := (d.memberNodes.filter (·.IsField)).flatMap (·.declaredFields source)
      source := String.ofList (sourceOf source (headerOf root) path d) }

section Entries

variable {source : List Char} {root d t m : SyntaxNode} {path ds : List SyntaxNode} {e : TypeUnit}
  {lo hi : Nat}

theorem packageName_eq (root : SyntaxNode) : (packageName source root).toList =
    ((packageNames root).head?.map (·.text source)).getD [] := by
  have name : ∀ d : SyntaxNode,
      (d.children.filter fun c => c.kind = "identifier" ∨ c.kind = "scoped_identifier").head? =
        d.children.find? fun c => c.kind == "scoped_identifier" || c.kind == "identifier" := by
    intro d
    rw [List.head?_filter]
    congr 1
    funext c
    rw [Bool.eq_iff_iff]
    simp [or_comm]
  have names : (packageNames root).head? = root.children.findSome? fun child =>
      if child.kind == "package_declaration" then
        child.children.find? fun c => c.kind == "scoped_identifier" || c.kind == "identifier"
      else none := by
    rw [packageNames, List.head?_flatMap]
    induction root.children with
    | nil => rfl
    | cons c cs ih =>
      by_cases kind : c.kind = "package_declaration"
      · rw [List.filter_cons_of_pos (by simpa using kind), List.findSome?_cons, List.findSome?_cons,
          ih, if_pos (by simpa using kind), name c]
      · rw [List.filter_cons_of_neg (by simpa using kind), ih, List.findSome?_cons,
          if_neg (by simpa using kind)]
  rw [names]
  exact String.toList_ofList

/-- The classes of a type and of the types in it. -/
def entriesOf (source : List Char) (root : SyntaxNode) (path : List SyntaxNode) (d : SyntaxNode) :
    List TypeUnit :=
  entryOf source root path d ::
    d.memberTypes.attach.flatMap fun t => entriesOf source root (d :: path) t.1
termination_by sizeOf d
decreasing_by exact sizeOf_lt_of_mem_types t.2

theorem entriesOf_eq (source : List Char) (root : SyntaxNode) (path : List SyntaxNode)
    (d : SyntaxNode) : entriesOf source root path d = entryOf source root path d ::
      d.memberTypes.flatMap (entriesOf source root (d :: path)) := by
  rw [entriesOf]
  simp

/-- What holds of a type when it holds of the types in it holds of every type. -/
theorem nested_induction {P : List SyntaxNode → SyntaxNode → Prop}
    (step : ∀ path d, (∀ t ∈ d.memberTypes, P (d :: path) t) → P path d) (path : List SyntaxNode)
    (d : SyntaxNode) : P path d :=
  step path d fun t _ => nested_induction step (d :: path) t
termination_by sizeOf d
decreasing_by exact sizeOf_lt_of_mem_types ‹_›

theorem unitsOf_type (package : String) (outer : Option String) (text : List Char)
    (named : ∃ name, d.child? "name" = some name) :
    unitsOf source package outer text d =
      { fullName := qualified package outer (d.fieldText source "name")
        simpleName := d.fieldText source "name"
        package := package
        methods := (d.members source).methods
        fields := (d.members source).fields
        source := String.ofList text } ::
      d.memberTypes.flatMap fun e =>
        unitsOf source package (some (qualified package outer (d.fieldText source "name")))
          (e.text source) e := by
  rw [unitsOf, name?_eq named, ← nested_eq source d]
  simp

/-- The classes of a type are computed as its entries say. -/
theorem unitsOf_eq (path : List SyntaxNode) (d : SyntaxNode) (wf : d.WellFormed) (type : d.IsType) :
    unitsOf source (packageName source root) (outerName source (packageName source root) path)
      (sourceOf source (headerOf root) path d) d =
      (entriesOf source root path d).map (·.unit) := by
  induction path, d using nested_induction with
  | step path d ih =>
    obtain ⟨name, _, named, -⟩ := wf.complete.typed type
    obtain ⟨methods, fields⟩ := members_named source wf type
    rw [entriesOf_eq, List.map_cons, List.map_flatMap, unitsOf_type _ _ _ ⟨name, named⟩, methods,
      fields]
    congr 1
    refine List.flatMap_congr fun t ht => ?_
    exact ih t ht ((types_placed wf type).good t ht) (mem_memberTypes_iff.mp ht).2

theorem entry_of_mem (path : List SyntaxNode) (d : SyntaxNode)
    (he : e ∈ entriesOf source root path d) : e = entryOf source root e.path e.type := by
  induction path, d using nested_induction with
  | step path d ih =>
    rw [entriesOf_eq] at he
    rcases List.mem_cons.mp he with rfl | he
    · rfl
    · obtain ⟨t, ht, he⟩ := List.mem_flatMap.mp he
      exact ih t ht he

theorem declared_of_mem (path : List SyntaxNode) (d : SyntaxNode) (hd : Declared root path d)
    (he : e ∈ entriesOf source root path d) : Declared root e.path e.type := by
  induction path, d using nested_induction with
  | step path d ih =>
    rw [entriesOf_eq] at he
    rcases List.mem_cons.mp he with rfl | he
    · exact hd
    · obtain ⟨t, ht, he⟩ := List.mem_flatMap.mp he
      obtain ⟨member, type⟩ := mem_memberTypes_iff.mp ht
      exact ih t ht (.nested hd member type) he

/-- With a type the types in it have entries. -/
theorem nested_entry_mem (path : List SyntaxNode) (d : SyntaxNode)
    (he : e ∈ entriesOf source root path d) (ht : t ∈ e.type.memberTypes) :
    entryOf source root (e.type :: e.path) t ∈ entriesOf source root path d := by
  induction path, d using nested_induction with
  | step path d ih =>
    rw [entriesOf_eq] at he ⊢
    refine List.mem_cons_of_mem _ (List.mem_flatMap.mpr ?_)
    rcases List.mem_cons.mp he with rfl | he
    · refine ⟨t, ht, ?_⟩
      rw [entriesOf_eq]
      exact List.mem_cons_self
    · obtain ⟨u, hu, he⟩ := List.mem_flatMap.mp he
      exact ⟨u, hu, ih u hu he⟩

def fileEntries (source : List Char) (root : SyntaxNode) : List TypeUnit :=
  (root.children.filter (·.IsType)).flatMap (entriesOf source root [])

theorem mem_fileEntries_iff :
    e ∈ fileEntries source root ↔ e = entryOf source root e.path e.type ∧
      Declared root e.path e.type := by
  constructor
  · intro he
    obtain ⟨d, hd, he⟩ := List.mem_flatMap.mp he
    obtain ⟨hd, type⟩ := List.mem_filter.mp hd
    exact ⟨entry_of_mem _ _ he, declared_of_mem _ _ (.top hd (of_decide_eq_true type)) he⟩
  · rintro ⟨he, declared⟩
    rw [he]
    generalize e.path = path at declared
    generalize e.type = d at declared
    induction declared with
    | top hd type =>
      refine List.mem_flatMap.mpr ⟨_, List.mem_filter.mpr ⟨hd, decide_eq_true type⟩, ?_⟩
      rw [entriesOf_eq]
      exact List.mem_cons_self
    | nested _ member type ih =>
      obtain ⟨top, htop, ih⟩ := List.mem_flatMap.mp ih
      exact List.mem_flatMap.mpr
        ⟨top, htop, nested_entry_mem _ _ ih (mem_memberTypes_iff.mpr ⟨member, type⟩)⟩

/-- The entries of a type are of types that stand inside of it. -/
theorem entriesOf_within (path : List SyntaxNode) (d : SyntaxNode) (wf : d.WellFormed)
    (type : d.IsType) (hd : d.first < d.stop) (he : e ∈ entriesOf source root path d) :
    d.first ≤ e.type.first ∧ e.type.first < e.type.stop ∧ e.type.stop ≤ d.stop ∧
      e.type.WellFormed ∧ e.type.IsType := by
  induction path, d using nested_induction with
  | step path d ih =>
    rw [entriesOf_eq] at he
    rcases List.mem_cons.mp he with rfl | he
    · exact ⟨Nat.le_refl _, hd, Nat.le_refl _, wf, type⟩
    · obtain ⟨t, ht, he⟩ := List.mem_flatMap.mp he
      obtain ⟨hlo, htt, hhi, inner⟩ := (types_placed wf type).of_mem ht
      change d.first + 1 ≤ t.first at hlo
      change t.stop ≤ d.stop at hhi
      obtain ⟨h₁, h₂, h₃, h₄⟩ := ih t ht inner (mem_memberTypes_iff.mp ht).2 htt he
      exact ⟨by omega, h₂, by omega, h₄⟩

/-- Types that follow one another have entries that follow one another, if those of each do. -/
theorem flatMap_inOrder (placed : SyntaxNode.Placed lo ds hi) (types : ∀ t ∈ ds, t.IsType)
    (each : ∀ t ∈ ds, (entriesOf source root path t).Pairwise fun e e' =>
      e.type.first < e'.type.first) :
    (ds.flatMap (entriesOf source root path)).Pairwise fun e e' =>
      e.type.first < e'.type.first := by
  refine placed.pairwise_flatMap (fun e : TypeUnit => e.type.first) ?_ (fun _ _ h => h) each
  intro t ht e he
  obtain ⟨-, htt, -, inner⟩ := placed.of_mem ht
  obtain ⟨hlo, hee, hhi, -⟩ := entriesOf_within _ _ inner (types t ht) htt he
  exact ⟨hlo, Nat.lt_of_lt_of_le hee hhi⟩

theorem entriesOf_inOrder (path : List SyntaxNode) (d : SyntaxNode) (wf : d.WellFormed)
    (type : d.IsType) :
    (entriesOf source root path d).Pairwise fun e e' => e.type.first < e'.type.first := by
  induction path, d using nested_induction with
  | step path d ih =>
    have placed := types_placed wf type
    rw [entriesOf_eq]
    refine List.pairwise_cons.mpr ⟨?_, flatMap_inOrder placed memberTypes_type ?_⟩
    · intro e he
      obtain ⟨t, ht, he⟩ := List.mem_flatMap.mp he
      obtain ⟨hlo, htt, -, inner⟩ := placed.of_mem ht
      change d.first + 1 ≤ t.first at hlo
      have := (entriesOf_within _ _ inner (memberTypes_type t ht) htt he).1
      change d.first < e.type.first
      omega
    · exact fun t ht => ih t ht (placed.good t ht) (memberTypes_type t ht)

/-- A member listed for a type or for a type in it stands inside of the type. -/
theorem member_within (wf : d.WellFormed) (type : d.IsType) (hd : d.first < d.stop)
    (hm : m ∈ (entriesOf source root path d).flatMap (·.members)) :
    d.first < m.first ∧ m.first < d.stop := by
  obtain ⟨e, he, hm⟩ := List.mem_flatMap.mp hm
  obtain ⟨hlo, -, hhi, inner, innerType⟩ := entriesOf_within _ _ wf type hd he
  rw [entry_of_mem _ _ he] at hm
  obtain ⟨hlo', hmm, hhi', -⟩ := (members_placed inner innerType).of_mem hm
  change e.type.first + 1 ≤ m.first at hlo'
  change m.first < m.stop at hmm
  change m.stop ≤ e.type.stop at hhi'
  omega

theorem flatMap_unshared (placed : SyntaxNode.Placed lo ds hi) (types : ∀ t ∈ ds, t.IsType)
    (each : ∀ t ∈ ds, ((entriesOf source root path t).flatMap (·.members)).Pairwise fun m m' =>
      m.first ≠ m'.first) :
    (ds.flatMap fun t => (entriesOf source root path t).flatMap (·.members)).Pairwise fun m m' =>
      m.first ≠ m'.first := by
  refine placed.pairwise_flatMap (·.first) ?_ (fun _ _ => Nat.ne_of_lt) each
  intro t ht m hm
  obtain ⟨-, htt, -, inner⟩ := placed.of_mem ht
  obtain ⟨hlo, hhi⟩ := member_within inner (types t ht) htt hm
  exact ⟨Nat.le_of_lt hlo, hhi⟩

theorem entriesOf_unshared (path : List SyntaxNode) (d : SyntaxNode) (wf : d.WellFormed)
    (type : d.IsType) :
    ((entriesOf source root path d).flatMap (·.members)).Pairwise fun m m' =>
      m.first ≠ m'.first := by
  induction path, d using nested_induction with
  | step path d ih =>
    have members := members_placed wf type
    have placed := types_placed wf type
    rw [entriesOf_eq, List.flatMap_cons, List.flatMap_assoc]
    refine List.pairwise_append.mpr ⟨?_, flatMap_unshared placed memberTypes_type ?_, ?_⟩
    · refine members.apart.imp_of_mem ?_
      intro m m' hm _ apart
      have := (members.of_mem hm).2.1
      change m.first < m.stop at this
      change m.stop ≤ m'.first at apart
      omega
    · exact fun t ht => ih t ht (placed.good t ht) (memberTypes_type t ht)
    · intro m hm m' hm'
      obtain ⟨t, ht, hm'⟩ := List.mem_flatMap.mp hm'
      obtain ⟨-, htt, -, inner⟩ := placed.of_mem ht
      have within := member_within inner (memberTypes_type t ht) htt hm'
      have mem : t ∈ d.memberNodes := (List.mem_filter.mp ht).1
      have long := (members.of_mem hm).2.1
      change m.first < m.stop at long
      -- the member is the type around the other one, or stands outside of it
      rcases members.apart_of_mem hm mem with rfl | apart | apart
      · omega
      · change m.stop ≤ t.first at apart
        omega
      · change t.stop ≤ m.first at apart
        omega

/-- The text of a node is a part of that of a node around it. -/
theorem text_infix (source : List Char) (hlo : t.first ≤ d.first) (hd : d.first ≤ d.stop)
    (hhi : d.stop ≤ t.stop) : d.text source <:+: t.text source := by
  have part : d.text source =
      ((t.text source).drop (d.first - t.first)).take (d.stop - d.first) := by
    unfold SyntaxNode.text
    rw [List.drop_take, List.drop_drop, List.take_take]
    congr 1
    · omega
    · congr 1
      omega
  rw [part]
  exact (List.take_prefix _ _).isInfix.trans (List.drop_suffix _ _).isInfix

theorem isType_of_declared (h : Declared root path d) : d.IsType := by
  cases h with
  | top _ type => exact type
  | nested _ _ type => exact type

/-- A file with a type has a first one. -/
theorem headerOf_eq (hd : d ∈ root.children) (type : d.IsType) :
    ∃ t, root.children.find? (·.IsType) = some t ∧ headerOf root = t.first := by
  unfold headerOf
  cases hf : root.children.find? (·.IsType) with
  | none => exact absurd (decide_eq_true type) (List.find?_eq_none.mp hf d hd)
  | some t => exact ⟨t, rfl, rfl⟩

theorem declared_placed (wf : root.WellFormed) (h : Declared root path d) :
    d.first < d.stop ∧ d.WellFormed := by
  induction h with
  | top hd _ =>
    obtain ⟨-, hd, -, good⟩ := wf.placed.of_mem hd
    exact ⟨hd, good⟩
  | nested outer member _ ih =>
    have placed := members_placed ih.2 (isType_of_declared outer)
    obtain ⟨-, hd, -, good⟩ := placed.of_mem (mem_memberNodes_iff.mpr member)
    exact ⟨hd, good⟩

/-- The part of a file before its first type and a type at its top are joined in the same way
whether that is the first type or a later one. -/
theorem extractClasses_eq (wf : root.WellFormed) :
    extractClasses source root = (fileEntries source root).map (·.unit) := by
  have types : (root.children.filter fun c => isTypeDeclaration c.kind) =
      root.children.filter (·.IsType) := by
    refine List.filter_congr fun c _ => ?_
    rw [Bool.eq_iff_iff, isTypeDeclaration_iff, decide_eq_true_eq]
  have header : ((root.children.filter (·.IsType)).head?.map (·.first)).getD 0 = headerOf root := by
    rw [List.head?_filter]
    rfl
  simp only [extractClasses, fileEntries, List.map_flatMap, types, header]
  refine List.flatMap_congr fun d hd => ?_
  obtain ⟨hd, type⟩ := List.mem_filter.mp hd
  obtain ⟨-, long, -, good⟩ := wf.placed.of_mem hd
  change d.first < d.stop at long
  rw [← unitsOf_eq [] d good (of_decide_eq_true type)]
  split
  next first =>
    have first : d.first = headerOf root := eq_of_beq first
    have text : source.take d.stop = source.take (headerOf root) ++ d.text source := by
      rw [SyntaxNode.text, ← first, ← List.take_add, Nat.add_sub_cancel' (Nat.le_of_lt long)]
    rw [text]
    rfl
  next => rfl

theorem topTypes_placed (wf : root.WellFormed) :
    SyntaxNode.Placed root.first (root.children.filter (·.IsType)) root.stop ∧
      ∀ t ∈ root.children.filter (·.IsType), t.IsType :=
  ⟨wf.placed.sublist List.filter_sublist,
    fun _ ht => of_decide_eq_true (List.mem_filter.mp ht).2⟩

theorem fileEntries_attribution (wf : root.WellFormed) :
    Attribution source root (fileEntries source root) where
  declared path d := by
    constructor
    · rintro ⟨e, he, rfl, rfl⟩
      exact (mem_fileEntries_iff.mp he).2
    · intro h
      exact ⟨entryOf source root path d, mem_fileEntries_iff.mpr ⟨rfl, h⟩, rfl, rfl⟩
  inOrder := by
    obtain ⟨types, type⟩ := topTypes_placed wf
    exact flatMap_inOrder types type fun t ht =>
      entriesOf_inOrder [] t (types.good t ht) (type t ht)
  unshared := by
    obtain ⟨types, type⟩ := topTypes_placed wf
    rw [fileEntries, List.flatMap_assoc]
    exact flatMap_unshared types type fun t ht =>
      entriesOf_unshared [] t (types.good t ht) (type t ht)
  members e he m := by
    rw [(mem_fileEntries_iff.mp he).1]
    exact mem_memberNodes_iff
  membersInOrder e he := by
    obtain ⟨eq, declared⟩ := mem_fileEntries_iff.mp he
    have members := members_placed (declared_placed wf declared).2 (isType_of_declared declared)
    rw [eq]
    exact members.apart
  simpleName e he := by
    obtain ⟨eq, declared⟩ := mem_fileEntries_iff.mp he
    have good := (declared_placed wf declared).2
    obtain ⟨name, -, named, -⟩ := good.complete.typed (isType_of_declared declared)
    refine ⟨name, named, ?_⟩
    rw [eq]
    simp [entryOf, SyntaxNode.fieldText, named]
  package e he := by
    rw [(mem_fileEntries_iff.mp he).1]
    exact packageName_eq root
  methods e he := by
    rw [(mem_fileEntries_iff.mp he).1]
    rfl
  fields e he := by
    rw [(mem_fileEntries_iff.mp he).1]
    rfl
  topName e he top := by
    rw [(mem_fileEntries_iff.mp he).1, top]
    simp [entryOf, outerName, qualified]
  topSource e he top := by
    obtain ⟨eq, declared⟩ := mem_fileEntries_iff.mp he
    rw [top] at declared eq
    cases declared with
    | top hd type =>
      obtain ⟨t, first, header⟩ := headerOf_eq hd type
      refine ⟨t, first, ?_⟩
      rw [eq, ← header]
      simp [entryOf, sourceOf]
  nested e he o path hp := by
    obtain ⟨eq, declared⟩ := mem_fileEntries_iff.mp he
    rw [hp] at declared eq
    cases declared with
    | nested outer member type =>
      have inner := (declared_placed wf outer).2
      obtain ⟨hlo, hd, hhi, -⟩ := (members_placed inner (isType_of_declared outer)).of_mem
        (mem_memberNodes_iff.mpr member)
      change o.first + 1 ≤ e.type.first at hlo
      change e.type.first < e.type.stop at hd
      change e.type.stop ≤ o.stop at hhi
      have part : e.type.text source <:+: o.text source :=
        text_infix source (by omega) (by omega) hhi
      have own : e.unit.source.toList = e.type.text source := by
        rw [eq]
        exact String.toList_ofList
      refine ⟨entryOf source root path o, mem_fileEntries_iff.mpr ⟨rfl, outer⟩, rfl, rfl, ?_, own,
        ?_⟩
      · rw [eq]
        rfl
      · rw [own, entryOf, String.toList_ofList]
        cases path with
        | nil => exact part.trans (List.suffix_append _ _).isInfix
        | cons => exact part

end Entries

/-- Every member of a type is in the class of that type alone, and every type has one class, for
every syntax tree without errors. The classes of a text are those of its tree, which is one of
these. -/
theorem classes_attributed :
    (∀ (source : List Char) (root : SyntaxNode), root.WellFormed →
      ∃ entries : List TypeUnit, entries.map (·.unit) = extractClasses source root ∧
        Attribution source root entries) ∧
    ∀ text : String, ∃ entries : List TypeUnit, entries.map (·.unit) = classes text ∧
      Attribution text.toList (syntaxTree text.toList) entries := by
  have attributed : ∀ (source : List Char) (root : SyntaxNode), root.WellFormed →
      ∃ entries : List TypeUnit, entries.map (·.unit) = extractClasses source root ∧
        Attribution source root entries := by
    intro source root wf
    exact ⟨fileEntries source root, (extractClasses_eq wf).symm, fileEntries_attribution wf⟩
  refine ⟨attributed, ?_⟩
  intro text
  exact attributed text.toList _ (syntaxTree_wellFormed text.toList)

section Example

def fileHead : List Char := "/*/ class X {} */ package a.b; ".toList

def innerType : List Char := "@N(k = 1) protected static class F { F() {} }".toList

def enumType : List Char :=
  "@N({1, 2}) public enum E \x7b P { void g() {} }, Q; ".toList ++
    "int x, y = f(\"\\\x7b new T() \x7b int z; \x7d.g(\"\x7d\") \x7d\"); ".toList ++ innerType ++
    " void f() {} // \x7d\n char c = '\x7d'; T t = \"\"\"\" \x7d\"\"\"; \x7d".toList

def sealedType : List Char := "non-sealed interface G extends I {}".toList

def interfaceType : List Char :=
  "sealed interface I permits G \x7b int[] K = {1}, L = {2}; default <T> T h() {} ".toList ++
    sealedType ++ "\x7d".toList

def recordType : List Char :=
  "record R(int z) { R {} M<@N(k = 1, l = 2) A, B> m = new M<@N(k = 1, l = 2) A, B>(), n; }".toList

def annotationType : List Char :=
  "@interface J { int v() default 1; A B = C < D ? 1 : 2, E = e; }".toList

def fileText : List Char :=
  fileHead ++ enumType ++ interfaceType ++ recordType ++ annotationType

/-- A file with types of every kind, in which comments, strings and annotations hold brackets. -/
theorem enum_attributed :
    (syntaxTree fileText).WellFormed ∧
    (∃ entries : List TypeUnit,
      entries.map (·.unit) = extractClasses fileText (syntaxTree fileText) ∧
        Attribution fileText (syntaxTree fileText) entries) ∧
    (classes (String.ofList fileText)).map (fun u => (u.fullName, u.methods, u.fields, u.source)) =
      [("a.b.E", ["f"], [("int", "x"), ("int", "y"), ("char", "c"), ("T", "t")],
          String.ofList (fileHead ++ enumType)),
        ("a.b.E.F", ["F"], [], String.ofList innerType),
        ("a.b.I", ["h"], [("int[]", "K"), ("int[]", "L")],
          String.ofList (fileHead ++ interfaceType)),
        ("a.b.I.G", [], [], String.ofList sealedType),
        ("a.b.R", ["R"], [("M<@N(k = 1, l = 2) A, B>", "m"), ("M<@N(k = 1, l = 2) A, B>", "n")],
          String.ofList (fileHead ++ recordType)),
        ("a.b.J", [], [("A", "B"), ("A", "E")], String.ofList (fileHead ++ annotationType))] := by
  have wf := syntaxTree_wellFormed fileText
  refine ⟨wf, classes_attributed.1 _ _ wf, ?_⟩
  unfold classes fileText fileHead enumType innerType interfaceType sealedType recordType
    annotationType
  -- the characters of a literal are slow to compute, but known without computing
  repeat rw [String.toList_ofList]
  decide +kernel

end Example

end AppSurface.Java
