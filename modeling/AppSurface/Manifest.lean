import AppSurface.Component
import AppSurface.Xml.Element

namespace AppSurface

open Xml

/-- The full class name of a component. A name without a dot, or with one in front, belongs to the
package. -/
def componentName (name package : String) : String :=
  match name.toList with
  | '.' :: _ => package ++ name
  | cs => if cs.contains '.' then name else package ++ "." ++ name

/-- The values of `android:name` on the elements of a name inside a filter, without empty ones. -/
def filterNames (filter : Element) (element : String) : List String :=
  ((filter.within element).map (·.value "android:name")).filter fun name => !name.isEmpty

/-- The parts of a data element that are given. -/
def dataParts (data : Element) : List String :=
  ["scheme", "host", "path", "mimeType"].filterMap fun key =>
    let value := data.value ("android:" ++ key)
    if value.isEmpty then none else some (key ++ "=" ++ value)

/-- An intent filter in words: its actions, its categories and its data. -/
def describeFilter (filter : Element) : String :=
  let actions := (filterNames filter "action").map ("Action: " ++ ·)
  let categories := (filterNames filter "category").map ("Category: " ++ ·)
  let data := ((filter.within "data").map dataParts).filter fun parts => !parts.isEmpty
  ", ".intercalate (actions ++ categories ++ data.map ("Data: " ++ " ".intercalate ·))

/-- Whether a component can be reached from outside: as it says, or else if it has a filter. -/
def isExported (element : Element) : Bool :=
  match element.value "android:exported" with
  | "true" => true
  | "false" => false
  | _ => !(element.within "intent-filter").isEmpty

/-- The component that an element declares, if it can be reached from outside. -/
def componentOf? (type : ComponentType) (package : String) (element : Element) :
    Option Component :=
  if isExported element then
    some
      { type := type
        name := componentName (element.value "android:name") package
        permission := element.value "android:permission"
        exported := true
        intentFilters :=
          ((element.within "intent-filter").map describeFilter).filter fun d => !d.isEmpty }
  else none

/-- The exported components of a manifest by type, each type in the order of the document. -/
def exportedComponents (root : Element) (package : String) : List Component :=
  ComponentType.all.flatMap fun type =>
    (root.named type.name).filterMap (componentOf? type package)

/-- Whether a filter makes its activity one that the launcher starts. -/
def isLauncherFilter (filter : Element) : Bool :=
  ((filter.within "action").any fun a => a.value "android:name" == "android.intent.action.MAIN") &&
    ((filter.within "category").any fun c =>
      c.value "android:name" == "android.intent.category.LAUNCHER")

/-- The first activity with a launcher filter. -/
def mainActivity? (root : Element) (package : String) : Option String :=
  ((root.named ComponentType.activity.name).find? fun activity =>
    (activity.within "intent-filter").any isLauncherFilter).map fun activity =>
      componentName (activity.value "android:name") package

structure Manifest where
  package : String
  components : List Component
  mainActivity : Option String
deriving DecidableEq

/-- The manifest with the given root, whose package completes the names of components. -/
def Manifest.ofRoot (root : Element) : Manifest :=
  let package := root.value "package"
  ⟨package, exportedComponents root package, mainActivity? root package⟩

def Manifest.parse (document : String) : Except DocumentFault Manifest :=
  Manifest.ofRoot <$> Xml.parse document

end AppSurface
