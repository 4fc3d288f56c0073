import AppSurface.Corpus
import AppSurface.Java.Declaration

namespace AppSurface.Java

def isTypeDeclaration (kind : String) : Bool :=
  kind == "class_declaration" || kind == "interface_declaration" || kind == "enum_declaration" ||
    kind == "record_declaration" || kind == "annotation_type_declaration"

def isMethodDeclaration (kind : String) : Bool :=
  kind == "method_declaration" || kind == "constructor_declaration" ||
    kind == "compact_constructor_declaration"

def isFieldDeclaration (kind : String) : Bool :=
  kind == "field_declaration" || kind == "constant_declaration"

/-- The package that a file is in, empty when none is declared. -/
def packageName (source : List Char) (root : SyntaxNode) : String :=
  let name := root.children.findSome? fun child =>
    if child.kind == "package_declaration" then
      child.children.find? fun c => c.kind == "scoped_identifier" || c.kind == "identifier"
    else none
  String.ofList ((name.map (·.text source)).getD [])

/-- The fields that one declaration names, each with its type. -/
def fieldsOf (source : List Char) (declaration : SyntaxNode) : List (String × String) :=
  let type := ((declaration.child? "type").map (·.text source)).getD []
  declaration.children.filterMap fun declarator =>
    if declarator.kind == "variable_declarator" then
      (declarator.name? source).map fun name => (String.ofList type, name)
    else none

/-- What was found in the body of a type: methods, fields, and types that have classes of their
own. -/
structure Members where
  methods : List String
  fields : List (String × String)
  nested : List SyntaxNode

namespace Members

def empty : Members := ⟨[], [], []⟩

mutual

/-- Adds what one child of a body declares. The members of an enum stand behind its constants. -/
def add (source : List Char) (members : Members) : SyntaxNode → Members
  | ⟨kind, field, first, stop, children⟩ =>
    let child : SyntaxNode := ⟨kind, field, first, stop, children⟩
    if isMethodDeclaration kind then
      { members with methods := members.methods ++ (child.name? source).toList }
    else if isFieldDeclaration kind then
      { members with fields := members.fields ++ fieldsOf source child }
    else if kind == "enum_body_declarations" then collect source members children
    else if isTypeDeclaration kind then { members with nested := members.nested ++ [child] }
    else members

def collect (source : List Char) (members : Members) : List SyntaxNode → Members
  | [] => members
  | child :: children => collect source (add source members child) children

end

end Members

/-- The members of a type, of which there are none without a body. -/
def SyntaxNode.members (source : List Char) (type : SyntaxNode) : Members :=
  match type.child? "body" with
  | some body => Members.empty.collect source body.children
  | none => .empty

/-- The full name of a type, behind that of the type around it or else behind the package. -/
def qualified (package : String) (outer : Option String) (name : String) : String :=
  match outer with
  | some o => o ++ "." ++ name
  | none => if package.isEmpty then name else package ++ "." ++ name

mutual

theorem Members.sizeOf_add {source : List Char} {m : Members} {e : SyntaxNode} :
    ∀ d : SyntaxNode, e ∈ (m.add source d).nested → e ∈ m.nested ∨ sizeOf e ≤ sizeOf d
  | ⟨kind, field, first, stop, children⟩, h => by
    unfold Members.add at h
    split at h
    · exact .inl h
    split at h
    · exact .inl h
    split at h
    · rcases Members.sizeOf_collect children h with h | h
      · exact .inl h
      · right
        simp only [SyntaxNode.mk.sizeOf_spec]
        omega
    split at h
    · rcases List.mem_append.mp h with h | h
      · exact .inl h
      · obtain rfl := List.mem_singleton.mp h
        exact .inr (Nat.le_refl _)
    · exact .inl h

theorem Members.sizeOf_collect {source : List Char} {m : Members} {e : SyntaxNode} :
    ∀ ds : List SyntaxNode, e ∈ (m.collect source ds).nested → e ∈ m.nested ∨ sizeOf e ≤ sizeOf ds
  | [], h => .inl h
  | d :: ds, h => by
    rcases Members.sizeOf_collect ds h with h | h
    · rcases Members.sizeOf_add d h with h | h
      · exact .inl h
      · right
        simp only [List.cons.sizeOf_spec]
        omega
    · right
      simp only [List.cons.sizeOf_spec]
      omega

end

/-- A type that is a member of another is a part of it. -/
theorem SyntaxNode.sizeOf_nested {source : List Char} {d e : SyntaxNode}
    (h : e ∈ (d.members source).nested) : sizeOf e < sizeOf d := by
  unfold SyntaxNode.members at h
  split at h
  next body found =>
    have small := (Members.sizeOf_collect body.children h).resolve_left List.not_mem_nil
    have part := List.sizeOf_lt_of_mem (List.mem_of_find?_eq_some found)
    obtain ⟨kind, field, first, stop, children⟩ := d
    obtain ⟨kind', field', first', stop', children'⟩ := body
    simp only [SyntaxNode.mk.sizeOf_spec] at part ⊢
    change sizeOf e ≤ sizeOf children' at small
    omega
  next => exact absurd h List.not_mem_nil

/-- The classes of a type: its own with the source `text`, and behind it those of the types in it.
-/
def unitsOf (source : List Char) (package : String) (outer : Option String) (text : List Char)
    (type : SyntaxNode) : List ClassUnit :=
  match type.name? source with
  | none => []
  | some simpleName =>
    let fullName := qualified package outer simpleName
    let members := type.members source
    { fullName := fullName
      simpleName := simpleName
      package := package
      methods := members.methods
      fields := members.fields
      source := String.ofList text } ::
      members.nested.attach.flatMap fun inner =>
        unitsOf source package (some fullName) (inner.1.text source) inner.1
termination_by sizeOf type
decreasing_by exact SyntaxNode.sizeOf_nested inner.2

/-- The classes of a text with a given syntax tree. A type at the top of the file carries everything
before the first of them. -/
def extractClasses (source : List Char) (root : SyntaxNode) : List ClassUnit :=
  let topLevel := root.children.filter fun c => isTypeDeclaration c.kind
  let headerEnd := (topLevel.head?.map (·.first)).getD 0
  topLevel.flatMap fun type =>
    let text :=
      if type.first == headerEnd then source.take type.stop
      else source.take headerEnd ++ type.text source
    unitsOf source (packageName source root) none text type

/-- The classes of a Java file. -/
def classes (text : String) : List ClassUnit := extractClasses text.toList (syntaxTree text.toList)

end AppSurface.Java
