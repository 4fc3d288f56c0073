import AppSurface.Json.Reader
import AppSurface.Json.Value

namespace AppSurface

/-- The kinds of component that a manifest declares. -/
inductive ComponentType where
  | activity
  | service
  | receiver
  | provider
deriving DecidableEq

namespace ComponentType

/-- The order in which components are classified and grouped. -/
def all : List ComponentType := [.activity, .service, .receiver, .provider]

/-- The element name of the manifest. -/
def name : ComponentType → String
  | .activity => "activity"
  | .service => "service"
  | .receiver => "receiver"
  | .provider => "provider"

def ofName? (s : String) : Option ComponentType := all.find? fun t => t.name == s

/-- The place of a kind in the order of the kinds. -/
def rank : ComponentType → Nat
  | .activity => 0
  | .service => 1
  | .receiver => 2
  | .provider => 3

end ComponentType

/-- A component that other applications can reach, with the permission that guards it (empty if
none does) and a description of each of its intent filters. -/
structure Component where
  type : ComponentType
  name : String
  permission : String
  exported : Bool
  intentFilters : List String
deriving DecidableEq

/-- Puts a component at the end of the group of its kind. The groups stand in ascending order of
kinds; a group that is not there yet is made at its place. -/
def Component.addTo (c : Component) :
    List (ComponentType × List Component) → List (ComponentType × List Component)
  | [] => [(c.type, [c])]
  | (type, group) :: groups =>
    if c.type = type then (type, group ++ [c]) :: groups
    else if c.type.rank < type.rank then (c.type, [c]) :: (type, group) :: groups
    else (type, group) :: c.addTo groups

/-- Components by kind, one after the other put into its group. -/
def Component.grouping (cs : List Component) : List (ComponentType × List Component) :=
  cs.foldl (fun groups c => c.addTo groups) []

/-- The component as a block of lines. -/
def Component.describe (c : Component) : String :=
  "Type: " ++ c.type.name ++ "\nName: " ++ c.name ++ "\nExported: " ++
    (if c.exported then "true" else "false") ++ "\n" ++
    (if c.permission.isEmpty then "" else "Permission: " ++ c.permission ++ "\n") ++
    (if c.intentFilters.isEmpty then ""
      else "Intent Filters:\n" ++
        String.join (c.intentFilters.map fun f => "  - " ++ f ++ "\n"))

open Json in
def Component.toJson (c : Component) : Value :=
  .obj [("type", .str c.type.name), ("name", .str c.name), ("permission", .str c.permission),
    ("exported", .bool c.exported), ("intent_filters", .strs c.intentFilters)]

open Json in
/-- The name of a kind, or an object whose only key is the name and holds `null`. -/
def ComponentType.reader : Reader ComponentType := fun n =>
  let named (name : String) : Except Defect ComponentType :=
    match ComponentType.ofName? name with
    | some type => .ok type
    | none => .error .mistyped
  value fun c t => do
    if c == '"' then
      let (name, rest) ← string n (c :: t)
      let type ← named name
      pure (type, rest)
    else if c == '\x7b' then
      let (name, rest) ← string n t
      let type ← named name
      let rest ← colon rest
      let ((), rest) ← null n rest
      match skipBlank rest with
      | [] => .error .truncated
      | '\x7d' :: rest => pure (type, rest)
      | _ => .error .malformed
    else .error .malformed

open Json in
def Component.reader : Reader Component :=
  record ⟨.activity, "", "", false, []⟩ ["type", "name", "exported"]
    [.of "type" ComponentType.reader fun x c => { c with type := x },
      .of "name" string fun x c => { c with name := x },
      .of "permission" string fun x c => { c with permission := x },
      .of "exported" bool fun x c => { c with exported := x },
      .of "intent_filters" (list string) fun x c => { c with intentFilters := x }]

end AppSurface
