import AppSurface.Json.Reader
import AppSurface.Json.Value

namespace AppSurface

/-- A class as it was decompiled. Overloads appear in `methods` once per declaration. -/
structure ClassUnit where
  fullName : String
  simpleName : String
  package : String
  methods : List String
  /-- Pairs of a type and a name. -/
  fields : List (String × String)
  source : String
deriving DecidableEq

/-- A file of the application that is not code, named by its path. -/
structure Resource where
  name : String
  content : String
deriving DecidableEq

/-- The classes and resources of one application. -/
structure Corpus where
  classes : List ClassUnit
  resources : List Resource
deriving DecidableEq

namespace Corpus

/-- Orders the classes by full name; classes of one name keep their order. -/
def ofParts (classes : List ClassUnit) (resources : List Resource) : Corpus :=
  ⟨classes.mergeSort fun a b => decide (a.fullName ≤ b.fullName), resources⟩

def findClass? (c : Corpus) (fullName : String) : Option ClassUnit :=
  c.classes.find? fun u => u.fullName == fullName

def findResource? (c : Corpus) (name : String) : Option Resource :=
  c.resources.find? fun r => r.name == name

/-- The resource name under which the manifest is found. -/
def manifestName : String := "AndroidManifest.xml"

def manifest? (c : Corpus) : Option String := (c.findResource? manifestName).map (·.content)

end Corpus

open Json in
def ClassUnit.toJson (u : ClassUnit) : Value :=
  .obj [("full_name", .str u.fullName), ("simple_name", .str u.simpleName),
    ("package", .str u.package), ("methods", .strs u.methods),
    ("fields", .arr (u.fields.map fun f => .strs [f.1, f.2])), ("source", .str u.source)]

open Json in
def ClassUnit.reader : Reader ClassUnit :=
  record ⟨"", "", "", [], [], ""⟩ ["full_name", "simple_name"]
    [.of "full_name" string fun x u => { u with fullName := x },
      .of "simple_name" string fun x u => { u with simpleName := x },
      .of "package" string fun x u => { u with package := x },
      .of "methods" (list string) fun x u => { u with methods := x },
      .of "fields" (list stringPair) fun x u => { u with fields := x },
      .of "source" string fun x u => { u with source := x }]

open Json in
def Resource.toJson (r : Resource) : Value :=
  .obj [("name", .str r.name), ("content", .str r.content)]

open Json in
def Resource.reader : Reader Resource :=
  record ⟨"", ""⟩ ["name", "content"]
    [.of "name" string fun x r => { r with name := x },
      .of "content" string fun x r => { r with content := x }]

namespace Corpus

open Json

def toJson (c : Corpus) : Value :=
  .obj [("classes", .arr (c.classes.map (·.toJson))),
    ("resources", .arr (c.resources.map (·.toJson)))]

/-- Reads a corpus as it stands in the text. -/
def listed : Reader Corpus :=
  record ⟨[], []⟩ []
    [.of "classes" (list ClassUnit.reader) fun x c => { c with classes := x },
      .of "resources" (list Resource.reader) fun x c => { c with resources := x }]

/-- Reads a corpus whose classes may stand in any order. -/
def ofJson (text : String) : Except Defect Corpus :=
  (decode listed text).map fun c => ofParts c.classes c.resources

end Corpus

end AppSurface
