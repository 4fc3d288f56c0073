import AppSurface.Java.SyntaxTree
import AppSurface.Java.TokenTree

namespace AppSurface.Java

/-- Where declarations stand: at the top of a file, or in the body of a class, an interface, an
annotation type or an enum, of which the constants are passed over. -/
inductive Body where
  | file
  | ofClass
  | ofInterface
  | ofAnnotationType
  | ofEnum

def Body.kind : Body → String
  | .file => "program"
  | .ofClass => "class_body"
  | .ofInterface => "interface_body"
  | .ofAnnotationType => "annotation_type_body"
  | .ofEnum => "enum_body"

open TokenTree

def modifierWords : List String :=
  ["public", "protected", "private", "abstract", "static", "final", "strictfp", "default",
    "synchronized", "native", "transient", "volatile"]

def isModifier (t : Token) : Bool := modifierWords.any t.isWord

/-- Whether a word can follow `sealed` where that is a modifier. -/
def followsSealed (t : Token) : Bool :=
  isModifier t || t.isWord "class" || t.isWord "interface" || t.isMark '@'

/-- What is dropped in front of a declaration: modifiers, the rest of `non-sealed`, or the name of
an annotation, where a word is expected next or was just read. -/
inductive ModifierReading where
  | modifiers
  | nonSealed
  | annotationWord
  | annotationTail

/-- How reading goes on behind a tree that is dropped; `ts` are the trees behind it. -/
def ModifierReading.next? (r : ModifierReading) (t : TokenTree) (ts : List TokenTree) :
    Option ModifierReading :=
  match r, t with
  | .annotationWord, .leaf _ => some .annotationTail
  | .annotationTail, .group .round _ _ _ => some .modifiers
  | .nonSealed, .leaf u => if u.isMark '-' then some .nonSealed else some .modifiers
  | _, .group _ _ _ _ => none
  | r, .leaf u =>
    let dotted := match r with
      | .annotationTail => u.isMark '.'
      | _ => false
    if dotted then some .annotationWord
    else if isModifier u then some .modifiers
    else
      match ts with
      | .leaf v :: us =>
        if u.isMark '@' && !v.isWord "interface" then some .annotationWord
        else if u.isWord "sealed" && followsSealed v then some .modifiers
        else
          match us with
          | .leaf w :: _ =>
            if u.isWord "non" && v.isMark '-' && w.isWord "sealed" then some .nonSealed else none
          | _ => none
      | _ => none

/-- Drops modifiers and annotations. -/
def dropModifiers (r : ModifierReading) : List TokenTree → List TokenTree
  | [] => []
  | t :: ts =>
    match r.next? t ts with
    | some r => dropModifiers r ts
    | none => t :: ts

/-- Whether type parameters or the components of a record start here. -/
def startsComponents : List TokenTree → Bool
  | .group .round _ _ _ :: _ => true
  | .leaf t :: _ => t.isMark '<'
  | _ => false

/-- What stands in front of the body of a type: what is declared, with which body, and its name. -/
structure TypeHead where
  kind : String
  body : Body
  name : Token

/-- The type that starts here, if one does. The word `record` begins a type only before a name with
type parameters or components. -/
def typeHead? : List TokenTree → Option TypeHead
  | .leaf t :: .leaf u :: ts =>
    if t.isWord "class" then some ⟨"class_declaration", .ofClass, u⟩
    else if t.isWord "interface" then some ⟨"interface_declaration", .ofInterface, u⟩
    else if t.isWord "enum" then some ⟨"enum_declaration", .ofEnum, u⟩
    else if t.isWord "record" && u.kind == .word && startsComponents ts then
      some ⟨"record_declaration", .ofClass, u⟩
    else if t.isMark '@' && u.isWord "interface" then
      match ts with
      | .leaf v :: _ => some ⟨"annotation_type_declaration", .ofAnnotationType, v⟩
      | _ => none
    else none
  | _ => none

/-- Whether a value is given: behind an equals sign, or as the default of an annotation element. -/
def hasValue (ts : List TokenTree) : Bool :=
  ts.any fun t =>
    match t with
    | .leaf u => u.isMark '=' || u.isWord "default"
    | _ => false

/-- Whether a tree can stand between the angle brackets of type arguments, in which parentheses
belong to an annotation. -/
def inTypeArguments (annotated : Bool) (t : TokenTree) : Bool :=
  match t with
  | .leaf u =>
    match u.kind, u.text with
    | .word, c :: _ => !c.isDigit
    | .mark, [c] => c == '.' || c == ',' || c == '?' || c == '&' || c == '@'
    | _, _ => false
  | .group .square _ _ _ => true
  | .group .round _ _ _ => annotated
  | .group .curly _ _ _ => false

/-- Whether an angle bracket that was opened is closed as one of type arguments; `depth` more are
open inside it, and `annotated` tells whether an annotation stands in it. -/
def closesTypeArguments (annotated : Bool) (depth : Nat) : List TokenTree → Bool
  | [] => false
  | t :: ts =>
    match t with
    | .leaf u =>
      if u.isMark '<' then closesTypeArguments annotated (depth + 1) ts
      else if u.isMark '>' then
        match depth with
        | 0 => true
        | n + 1 => closesTypeArguments annotated n ts
      else
        inTypeArguments annotated t && closesTypeArguments (annotated || u.isMark '@') depth ts
    | _ => inTypeArguments annotated t && closesTypeArguments annotated depth ts

/-- Drops type parameters in front, of which `depth` angle brackets are open. -/
def dropAngles (depth : Nat) : List TokenTree → List TokenTree
  | [] => []
  | .leaf t :: ts =>
    if t.isMark '<' then dropAngles (depth + 1) ts
    else if depth == 0 then .leaf t :: ts
    else if t.isMark '>' then dropAngles (depth - 1) ts
    else dropAngles depth ts
  | t :: ts => if depth == 0 then t :: ts else dropAngles depth ts

/-- What is read of a type in front of a name: the type itself, its type arguments, or an
annotation inside it. -/
inductive TypeReading where
  | parts
  | arguments (depth : Nat)
  | annotationWord
  | annotationTail

/-- The name behind a type that is `complete`, if it is the tree `t`. -/
def TypeReading.name? (r : TypeReading) (complete : Bool) (t : TokenTree) : Option Token :=
  match r, t with
  | .parts, .leaf u | .annotationTail, .leaf u =>
    if complete && u.kind == .word then some u else none
  | _, _ => none

/-- How reading goes on behind a tree that belongs to a type, and whether the type can end there. -/
def TypeReading.next? (r : TypeReading) (complete : Bool) (t : TokenTree) :
    Option (TypeReading × Bool) :=
  match r, t with
  | .arguments depth, .leaf u =>
    if u.isMark '<' then some (.arguments (depth + 1), complete)
    else if u.isMark '>' then
      match depth with
      | 0 => some (.parts, true)
      | n + 1 => some (.arguments n, complete)
    else some (.arguments depth, complete)
  | .arguments depth, _ => some (.arguments depth, complete)
  | .annotationWord, _ => some (.annotationTail, complete)
  | .annotationTail, .group .round _ _ _ => some (.parts, complete)
  | _, .group b _ _ _ => if b == .square && complete then some (.parts, true) else none
  | r, .leaf u =>
    let dotted := match r with
      | .annotationTail => u.isMark '.'
      | _ => false
    if dotted then some (.annotationWord, complete)
    else if u.kind == .word then some (.parts, true)
    else if u.isMark '@' then some (.annotationWord, complete)
    else if u.isMark '.' then some (.parts, false)
    else if u.isMark '<' then some (.arguments 0, complete)
    else none

/-- Splits a declaration into its type, its name and the rest. The name is the word behind a type
that is complete without it. -/
def splitName (r : TypeReading) (complete : Bool) (held : List TokenTree) :
    List TokenTree → Option (List TokenTree × Token × List TokenTree)
  | [] => none
  | t :: ts =>
    match r.name? complete t with
    | some name => some (held.reverse, name, ts)
    | none =>
      match r.next? complete t with
      | some (r, complete) => splitName r complete (t :: held) ts
      | none => none

/-- What is read of a field: its name with brackets behind it, an initialiser, or type arguments in
that. -/
inductive FieldReading where
  | name
  | initialiser
  | arguments (depth : Nat)

/-- How reading goes on behind a tree, unless that is the comma in front of the next field; `ts` are
the trees behind it. -/
def FieldReading.next? (r : FieldReading) (t : TokenTree) (ts : List TokenTree) :
    Option FieldReading :=
  match r, t with
  | r, .group _ _ _ _ => some r
  | .name, .leaf u =>
    if u.isMark ',' then none else some (if u.isMark '=' then .initialiser else .name)
  | .initialiser, .leaf u =>
    if u.isMark ',' then none
    else if u.isMark '<' && closesTypeArguments false 0 ts then some (.arguments 0)
    else some .initialiser
  | .arguments depth, .leaf u =>
    if u.isMark '<' then some (.arguments (depth + 1))
    else if u.isMark '>' then
      match depth with
      | 0 => some .initialiser
      | n + 1 => some (.arguments n)
    else some (.arguments depth)

/-- Splits what stands behind a type into its fields. -/
def splitFields (r : FieldReading) (held : List TokenTree) : List TokenTree → List (List TokenTree)
  | [] => [held.reverse]
  | t :: ts =>
    match r.next? t ts with
    | some r => splitFields r (t :: held) ts
    | none => held.reverse :: splitFields .name [] ts

/-- A node in the place of some trees, if there are any. -/
def nodeOf (kind : String) (field : Option String) (children : List SyntaxNode)
    (ts : List TokenTree) : Option SyntaxNode :=
  match ts.head?, ts.getLast? with
  | some t, some u => some ⟨kind, field, t.first.first, u.last.stop, children⟩
  | _, _ => none

/-- The name that a declaration gives. -/
def Token.nameNode (t : Token) : SyntaxNode := ⟨"identifier", some "name", t.first, t.stop, []⟩

def declarator? (ts : List TokenTree) : Option SyntaxNode :=
  match ts with
  | .leaf t :: _ => nodeOf "variable_declarator" (some "declarator") [t.nameNode] ts
  | _ => none

/-- The kind and the children of a package declaration. -/
def packageMember? : List TokenTree → Option (String × List SyntaxNode)
  | .leaf t :: name =>
    if t.isWord "package" then
      let kind := if name.length == 1 then "identifier" else "scoped_identifier"
      some ("package_declaration", (nodeOf kind none [] name).toList)
    else none
  | _ => none

/-- What a declaration with a given name and without a type declares, if it is one; `block` tells
whether it ends with a block. -/
def untypedKind? (block : Bool) (behind : List TokenTree) : Option String :=
  match behind with
  | .group .round _ _ _ :: _ => some "constructor_declaration"
  | [] => if block then some "compact_constructor_declaration" else none
  | _ => none

/-- The kind and the children of a declaration that starts with its type. -/
def typedMember? (body : Body) (ts : List TokenTree) : Option (String × List SyntaxNode) :=
  (splitName .parts false [] ts).map fun (type, name, behind) =>
    match behind, body with
    | .group .round _ _ _ :: _, .ofAnnotationType =>
      ("annotation_type_element_declaration", [name.nameNode])
    | .group .round _ _ _ :: _, _ => ("method_declaration", [name.nameNode])
    | _, _ =>
      let kind := match body with
        | .ofInterface | .ofAnnotationType => "constant_declaration"
        | _ => "field_declaration"
      (kind, (nodeOf "_type" (some "type") [] type).toList ++
        (splitFields .name [] (.leaf name :: behind)).filterMap declarator?)

/-- The kind and the children of what trees without modifiers declare, unless that is a type. -/
def member? (body : Body) (block : Bool) (ts : List TokenTree) :
    Option (String × List SyntaxNode) :=
  match body with
  | .file => packageMember? ts
  | _ =>
    match dropModifiers .modifiers (dropAngles 0 ts) with
    | .leaf t :: behind =>
      match untypedKind? block behind with
      | some kind => some (kind, [t.nameNode])
      | none => typedMember? body (.leaf t :: behind)
    | _ => none

/-- The place of the first of some trees, or of a token if there are none. -/
def startOf (ts : List TokenTree) (t : Token) : Nat := (ts.head?.map (·.first.first)).getD t.first

/-- The place behind the last of some trees, or behind a token if there are none. -/
def stopOf (ts : List TokenTree) (t : Token) : Nat := (ts.getLast?.map (·.last.stop)).getD t.stop

/-- The declaration that some trees are together with the token or block behind them, unless it is a
type; that starts with `t` and ends at `stop`. -/
def memberNode? (body : Body) (block : Bool) (ts : List TokenTree) (t : Token) (stop : Nat) :
    Option SyntaxNode :=
  (member? body block (dropModifiers .modifiers ts)).map fun (kind, children) =>
    ⟨kind, none, startOf ts t, stop, children⟩

mutual

/-- The declarations in the body that a tree is. -/
def declarationsIn (body : Body) : TokenTree → List SyntaxNode
  | .leaf _ => []
  | .group _ _ _ inner => declarationsFrom body [] inner

/-- The declarations of a body, of which the trees in `held` were read since the last one ended,
last first. A declaration ends at a semicolon, or at a block unless that is part of its value. -/
def declarationsFrom (body : Body) (held : List TokenTree) : List TokenTree → List SyntaxNode
  | [] => []
  | t :: ts =>
    match t with
    | .leaf u =>
      if u.isMark ';' then
        match body with
        | .ofEnum =>
          [⟨"enum_body_declarations", none, u.first, stopOf ts u, declarationsFrom .ofClass [] ts⟩]
        | body =>
          (memberNode? body false held.reverse u u.stop).toList ++ declarationsFrom body [] ts
      else declarationsFrom body (t :: held) ts
    | .group bracket first last _ =>
      match body, bracket with
      | .ofEnum, _ => declarationsFrom body (t :: held) ts
      | _, .curly =>
        let all := held.reverse
        let declared := dropModifiers .modifiers all
        match typeHead? declared with
        | some head =>
          ⟨head.kind, none, startOf all first, last.stop,
              [head.name.nameNode, ⟨head.body.kind, some "body", first.first, last.stop,
                declarationsIn head.body t⟩]⟩ ::
            declarationsFrom body [] ts
        | none =>
          if hasValue declared then declarationsFrom body (t :: held) ts
          else (memberNode? body true all first last.stop).toList ++ declarationsFrom body [] ts
      | _, _ => declarationsFrom body (t :: held) ts

end

/-- The syntax tree of a text, with the nodes that its classes are read from. -/
def syntaxTree (source : List Char) : SyntaxNode :=
  ⟨Body.file.kind, none, 0, source.length,
    declarationsFrom .file [] (TokenTree.ofTokens (tokens source))⟩

end AppSurface.Java
