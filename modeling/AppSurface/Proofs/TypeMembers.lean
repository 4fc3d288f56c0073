import AppSurface.Java.Skeleton
import AppSurface.Proofs.Places

namespace AppSurface.Java

namespace SyntaxNode

def IsField (n : SyntaxNode) : Prop := n.kind ∈ ["constant_declaration", "field_declaration"]

/-- The members of an enum that stand behind its constants. -/
def IsBlock (n : SyntaxNode) : Prop := n.kind = "enum_body_declarations"

instance (n : SyntaxNode) : Decidable n.IsType := inferInstanceAs (Decidable (_ ∈ _))

instance (n : SyntaxNode) : Decidable n.IsMethod := inferInstanceAs (Decidable (_ ∈ _))

instance (n : SyntaxNode) : Decidable n.IsField := inferInstanceAs (Decidable (_ ∈ _))

instance (n : SyntaxNode) : Decidable n.IsBlock := inferInstanceAs (Decidable (_ = _))

/-- The text of the child in a field, empty when there is none. -/
def fieldText (source : List Char) (field : String) (n : SyntaxNode) : String :=
  String.ofList (((n.child? field).map (·.text source)).getD [])

def declaredFields (source : List Char) (n : SyntaxNode) : List (String × String) :=
  (n.children.filter (·.kind = "variable_declarator")).map fun v =>
    (n.fieldText source "type", v.fieldText source "name")

end SyntaxNode

/-- A body has a member, which may stand behind the constants of an enum. -/
inductive Direct : List SyntaxNode → SyntaxNode → Prop
  | listed {ds : List SyntaxNode} {d : SyntaxNode} : d ∈ ds → ¬d.IsBlock → Direct ds d
  | inBlock {ds : List SyntaxNode} {b d : SyntaxNode} :
    b ∈ ds → b.IsBlock → Direct b.children d → Direct ds d

def Member (type d : SyntaxNode) : Prop :=
  ∃ body, type.child? "body" = some body ∧ Direct body.children d

section Kinds

variable {n : SyntaxNode} {source : List Char}

theorem isTypeDeclaration_iff : isTypeDeclaration n.kind = true ↔ n.IsType := by
  simp only [isTypeDeclaration, SyntaxNode.IsType, Bool.or_eq_true, beq_iff_eq, List.mem_cons,
    List.not_mem_nil, or_false]
  tauto

theorem isMethodDeclaration_iff : isMethodDeclaration n.kind = true ↔ n.IsMethod := by
  simp only [isMethodDeclaration, SyntaxNode.IsMethod, Bool.or_eq_true, beq_iff_eq, List.mem_cons,
    List.not_mem_nil, or_false]
  tauto

theorem isFieldDeclaration_iff : isFieldDeclaration n.kind = true ↔ n.IsField := by
  simp only [isFieldDeclaration, SyntaxNode.IsField, Bool.or_eq_true, beq_iff_eq, List.mem_cons,
    List.not_mem_nil, or_false]
  tauto

theorem method_only (h : n.IsMethod) : ¬n.IsBlock ∧ ¬n.IsField ∧ ¬n.IsType := by
  simp only [SyntaxNode.IsMethod, List.mem_cons, List.not_mem_nil, or_false] at h
  rcases h with h | h | h <;> simp [SyntaxNode.IsBlock, SyntaxNode.IsField, SyntaxNode.IsType, h]

theorem field_only (h : n.IsField) : ¬n.IsBlock ∧ ¬n.IsType := by
  simp only [SyntaxNode.IsField, List.mem_cons, List.not_mem_nil, or_false] at h
  rcases h with h | h <;> simp [SyntaxNode.IsBlock, SyntaxNode.IsType, h]

theorem name?_eq (h : ∃ name, n.child? "name" = some name) :
    n.name? source = some (n.fieldText source "name") := by
  obtain ⟨name, h⟩ := h
  simp [SyntaxNode.name?, SyntaxNode.fieldText, h]

/-- Every field of a declaration is listed. -/
theorem fieldsOf_eq (h : n.WellFormed) : fieldsOf source n = n.declaredFields source := by
  have named : ∀ v ∈ n.children, v.kind = "variable_declarator" →
      v.name? source = some (v.fieldText source "name") :=
    fun v hv kind => name?_eq ((h.placed.good v hv).complete.named (.inr kind))
  unfold fieldsOf SyntaxNode.declaredFields
  rw [← List.filterMap_eq_map, List.filterMap_filter]
  refine List.filterMap_congr fun v hv => ?_
  by_cases kind : v.kind = "variable_declarator"
  · simp [kind, named v hv kind, SyntaxNode.fieldText]
  · simp [kind]

end Kinds

mutual

/-- What a child of a body adds to its members. -/
def direct : SyntaxNode → List SyntaxNode
  | ⟨kind, field, first, stop, children⟩ =>
    if kind = "enum_body_declarations" then directAll children
    else [⟨kind, field, first, stop, children⟩]

def directAll : List SyntaxNode → List SyntaxNode
  | [] => []
  | d :: ds => direct d ++ directAll ds

end

section Members

variable {ds : List SyntaxNode} {d : SyntaxNode} {m : Members} {source : List Char} {lo hi : Nat}

theorem direct_of_ne (h : ¬d.IsBlock) : direct d = [d] := by
  obtain ⟨kind, field, first, stop, children⟩ := d
  rw [direct]
  exact if_neg h

theorem direct_of_block (h : d.IsBlock) : direct d = directAll d.children := by
  obtain ⟨kind, field, first, stop, children⟩ := d
  rw [direct]
  exact if_pos h

theorem mem_directAll {b : SyntaxNode} (hb : b ∈ ds) (h : d ∈ direct b) : d ∈ directAll ds := by
  induction ds with
  | nil => cases hb
  | cons c ds ih =>
    rcases List.mem_cons.mp hb with rfl | hb
    · exact List.mem_append_left _ h
    · exact List.mem_append_right _ (ih hb)

mutual

theorem direct_sound : ∀ b : SyntaxNode, d ∈ direct b → Direct [b] d
  | ⟨kind, field, first, stop, children⟩, h => by
    by_cases block : SyntaxNode.IsBlock ⟨kind, field, first, stop, children⟩
    · rw [direct_of_block block] at h
      exact .inBlock List.mem_cons_self block (directAll_sound children h)
    · rw [direct_of_ne block] at h
      obtain rfl := List.mem_singleton.mp h
      exact .listed List.mem_cons_self block

theorem directAll_sound : ∀ ds : List SyntaxNode, d ∈ directAll ds → Direct ds d
  | b :: ds, h => by
    have lift : ∀ {cs : List SyntaxNode}, cs ⊆ b :: ds → Direct cs d → Direct (b :: ds) d := by
      intro cs sub h
      cases h with
      | listed hd hk => exact .listed (sub hd) hk
      | inBlock hb hk h => exact .inBlock (sub hb) hk h
    rcases List.mem_append.mp h with h | h
    · exact lift (by simp) (direct_sound b h)
    · exact lift (by simp) (directAll_sound ds h)

end

theorem mem_directAll_iff : d ∈ directAll ds ↔ Direct ds d := by
  refine ⟨directAll_sound ds, fun h => ?_⟩
  induction h with
  | listed hd hk =>
    refine mem_directAll hd ?_
    rw [direct_of_ne hk]
    exact List.mem_singleton.mpr rfl
  | inBlock hb hk _ ih =>
    refine mem_directAll hb ?_
    rw [direct_of_block hk]
    exact ih

mutual

theorem direct_placed : ∀ d : SyntaxNode, d.WellFormed → d.first < d.stop →
    SyntaxNode.Placed d.first (direct d) d.stop
  | ⟨kind, field, first, stop, children⟩, good, long => by
    by_cases block : SyntaxNode.IsBlock ⟨kind, field, first, stop, children⟩
    · rw [direct_of_block block]
      exact directAll_placed children good.placed
    · rw [direct_of_ne block]
      exact Arranged.single (Nat.le_refl _) long good

theorem directAll_placed : ∀ (ds : List SyntaxNode) {lo hi : Nat}, SyntaxNode.Placed lo ds hi →
    SyntaxNode.Placed lo (directAll ds) hi
  | [], _, _, h => h
  | d :: ds, _, _, h => by
    obtain ⟨hlo, long, good, rest⟩ := h.of_cons
    exact ((direct_placed d good long).mono hlo (Nat.le_refl _)).append (directAll_placed ds rest)

end

namespace Members

/-- The members of a body behind others. -/
def extended (source : List Char) (m : Members) (ds : List SyntaxNode) : Members :=
  ⟨m.methods ++ (ds.filter (·.IsMethod)).flatMap fun d => (d.name? source).toList,
    m.fields ++ (ds.filter (·.IsField)).flatMap (fieldsOf source),
    m.nested ++ ds.filter (·.IsType)⟩

variable {n : SyntaxNode}

theorem add_of_method (h : n.IsMethod) :
    m.add source n = { m with methods := m.methods ++ (n.name? source).toList } := by
  obtain ⟨kind, field, first, stop, children⟩ := n
  exact if_pos (isMethodDeclaration_iff.mpr h)

theorem add_of_field (h : n.IsField) :
    m.add source n = { m with fields := m.fields ++ fieldsOf source n } := by
  have method : ¬n.IsMethod := fun hm => (method_only hm).2.1 h
  obtain ⟨kind, field, first, stop, children⟩ := n
  exact (if_neg (mt isMethodDeclaration_iff.mp method)).trans
    (if_pos (isFieldDeclaration_iff.mpr h))

theorem add_of_type (h : n.IsType) : m.add source n = { m with nested := m.nested ++ [n] } := by
  have method : ¬n.IsMethod := fun hm => (method_only hm).2.2 h
  have field : ¬n.IsField := fun hf => (field_only hf).2 h
  have block : ¬n.IsBlock := fun hb => by
    rw [SyntaxNode.IsType, hb] at h
    simp at h
  obtain ⟨kind, field', first, stop, children⟩ := n
  exact (if_neg (mt isMethodDeclaration_iff.mp method)).trans
    ((if_neg (mt isFieldDeclaration_iff.mp field)).trans
      ((if_neg (mt eq_of_beq block)).trans (if_pos (isTypeDeclaration_iff.mpr h))))

theorem add_of_block (h : n.IsBlock) : m.add source n = m.collect source n.children := by
  have method : ¬n.IsMethod := fun hm => (method_only hm).1 h
  have field : ¬n.IsField := fun hf => (field_only hf).1 h
  obtain ⟨kind, field', first, stop, children⟩ := n
  exact (if_neg (mt isMethodDeclaration_iff.mp method)).trans
    ((if_neg (mt isFieldDeclaration_iff.mp field)).trans (if_pos (beq_iff_eq.mpr h)))

theorem add_of_other (method : ¬n.IsMethod) (field : ¬n.IsField) (block : ¬n.IsBlock)
    (type : ¬n.IsType) : m.add source n = m := by
  obtain ⟨kind, field', first, stop, children⟩ := n
  exact (if_neg (mt isMethodDeclaration_iff.mp method)).trans
    ((if_neg (mt isFieldDeclaration_iff.mp field)).trans
      ((if_neg (mt eq_of_beq block)).trans (if_neg (mt isTypeDeclaration_iff.mp type))))

/-- A child that is not the block of an enum is a method, a field, a type or nothing of these. -/
theorem add_of_ne (block : ¬n.IsBlock) : m.add source n = m.extended source [n] := by
  by_cases method : n.IsMethod
  · obtain ⟨-, field, type⟩ := method_only method
    rw [add_of_method method]
    simp [extended, method, field, type]
  by_cases field : n.IsField
  · obtain ⟨-, type⟩ := field_only field
    rw [add_of_field field]
    simp [extended, method, field, type]
  by_cases type : n.IsType
  · rw [add_of_type type]
    simp [extended, method, field, type]
  · rw [add_of_other method field block type]
    simp [extended, method, field, type]

theorem extended_append (ds es : List SyntaxNode) :
    m.extended source (ds ++ es) = (m.extended source ds).extended source es := by
  simp [extended]

mutual

theorem add_eq : ∀ (m : Members) (d : SyntaxNode),
    m.add source d = m.extended source (direct d)
  | m, ⟨kind, field, first, stop, children⟩ => by
    by_cases block : SyntaxNode.IsBlock ⟨kind, field, first, stop, children⟩
    · rw [add_of_block block, direct_of_block block]
      exact collect_eq m children
    · rw [add_of_ne block, direct_of_ne block]

theorem collect_eq : ∀ (m : Members) (ds : List SyntaxNode),
    m.collect source ds = m.extended source (directAll ds)
  | ⟨_, _, _⟩, [] => by simp [collect, directAll, extended]
  | m, d :: ds => by
    rw [collect, add_eq m d, collect_eq _ ds, directAll, extended_append]

end

end Members

end Members

def SyntaxNode.memberNodes (d : SyntaxNode) : List SyntaxNode :=
  match d.child? "body" with
  | some body => directAll body.children
  | none => []

def SyntaxNode.memberTypes (d : SyntaxNode) : List SyntaxNode := d.memberNodes.filter (·.IsType)

section Members

variable {d t m : SyntaxNode}

theorem members_eq (source : List Char) (d : SyntaxNode) :
    d.members source = Members.empty.extended source d.memberNodes := by
  unfold SyntaxNode.members SyntaxNode.memberNodes
  cases d.child? "body" with
  | some body => exact Members.collect_eq _ _
  | none => rfl

theorem nested_eq (source : List Char) (d : SyntaxNode) :
    (d.members source).nested = d.memberTypes := by
  rw [members_eq]
  rfl

theorem sizeOf_lt_of_mem_types (h : t ∈ d.memberTypes) : sizeOf t < sizeOf d := by
  rw [← nested_eq [] d] at h
  exact SyntaxNode.sizeOf_nested h

theorem mem_memberNodes_iff : m ∈ d.memberNodes ↔ Member d m := by
  unfold SyntaxNode.memberNodes Member
  cases d.child? "body" with
  | none => simp
  | some body => simp [mem_directAll_iff]

theorem mem_memberTypes_iff : t ∈ d.memberTypes ↔ Member d t ∧ t.IsType := by
  rw [SyntaxNode.memberTypes, List.mem_filter, mem_memberNodes_iff, decide_eq_true_eq]

/-- The members of a type stand behind the start of its name. -/
theorem members_placed (wf : d.WellFormed) (type : d.IsType) :
    SyntaxNode.Placed (d.first + 1) d.memberNodes d.stop := by
  obtain ⟨name, body, hname, hbody, order⟩ := wf.complete.typed type
  obtain ⟨hlo, long, -, -⟩ := wf.placed.of_mem (List.mem_of_find?_eq_some hname)
  obtain ⟨-, -, hhi, good⟩ := wf.placed.of_mem (List.mem_of_find?_eq_some hbody)
  unfold SyntaxNode.memberNodes
  rw [hbody]
  refine (directAll_placed body.children good.placed).mono ?_ hhi
  change d.first ≤ name.first at hlo
  change name.first < name.stop at long
  omega

theorem types_placed (wf : d.WellFormed) (type : d.IsType) :
    SyntaxNode.Placed (d.first + 1) d.memberTypes d.stop :=
  (members_placed wf type).sublist List.filter_sublist

theorem members_named (source : List Char) (wf : d.WellFormed) (type : d.IsType) :
    (d.members source).methods =
      (d.memberNodes.filter (·.IsMethod)).map (·.fieldText source "name") ∧
    (d.members source).fields =
      (d.memberNodes.filter (·.IsField)).flatMap (·.declaredFields source) := by
  have good := (members_placed wf type).good
  rw [members_eq]
  refine ⟨?_, ?_⟩
  · change List.flatMap _ _ = _
    rw [List.map_eq_flatMap]
    refine List.flatMap_congr fun m hm => ?_
    obtain ⟨hm, method⟩ := List.mem_filter.mp hm
    have named := (good m hm).complete.named (.inl (of_decide_eq_true method))
    rw [name?_eq named]
    rfl
  · change List.flatMap _ _ = _
    exact List.flatMap_congr fun m hm => fieldsOf_eq (good m (List.mem_filter.mp hm).1)

theorem memberTypes_type : ∀ t ∈ d.memberTypes, t.IsType :=
  fun _ ht => (mem_memberTypes_iff.mp ht).2

end Members

end AppSurface.Java
