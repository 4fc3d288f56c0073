import AppSurface.Config
import AppSurface.FileTree
import AppSurface.Java.Skeleton
import AppSurface.Log

namespace AppSurface

/-- Names that are never loaded. -/
def builtInExcludes : List String := [".git", ".gradle", ".idea", "node_modules", "__MACOSX"]

def isExcluded (config : Config) (name : String) : Bool :=
  builtInExcludes.contains name || config.excludePatterns.contains name

namespace FileTree

/-- Whether an entry of a directory is passed over: by its name, or as a hidden directory. -/
def isSkipped (config : Config) (name : String) (t : FileTree) : Bool :=
  isExcluded config name || (t.isDirectory && name.toList.head? == some '.')

mutual

/-- The files of a tree that are not passed over, depth first, with the names that lead to them.
The entries of each directory stand in the order of their names. -/
def files (config : Config) : FileTree → List (List String × ByteArray)
  | .file content => [([], content)]
  | .directory es =>
    ((filesOfEntries config es).mergeSort fun a b => decide (a.1 ≤ b.1)).flatMap fun e =>
      e.2.map fun f => (e.1 :: f.1, f.2)

def filesOfEntries (config : Config) :
    List (String × FileTree) → List (String × List (List String × ByteArray))
  | [] => []
  | (name, t) :: es =>
    if isSkipped config name t then filesOfEntries config es
    else (name, files config t) :: filesOfEntries config es

end

end FileTree

/-- A file found while loading a directory: its path as shown, its names below the directory, and
its content. -/
structure FoundFile where
  path : String
  names : List String
  content : ByteArray

/-- The directory below which all resources are, if it exists. -/
def resourcesName : String := "resources"

/-- What becomes of a file. -/
inductive Fate where
  | classes (units : List ClassUnit)
  | resource (r : Resource)
  /-- The file is not below the directory of resources. -/
  | outside
  | oversized (size : Nat)
  | notText
  | noTypes

/-- The text of a file that is not too large, or its fate. -/
def FoundFile.text (f : FoundFile) (config : Config) : Except Fate String :=
  if config.maxFileSize < f.content.size then .error (.oversized f.content.size)
  else
    match String.fromUTF8? f.content with
    | some text => .ok text
    | none => .error .notText

/-- The name of a resource: its names below its base, joined by slashes, which also stand for
backslashes. -/
def resourceName (names : List String) : String :=
  String.ofList (("/".intercalate names).toList.map fun c => if c == '\\' then '/' else c)

def FoundFile.isJava (f : FoundFile) : Bool :=
  (f.names.getLast?.bind Path.extension?) == some "java"

/-- What becomes of a Java file. -/
def FoundFile.javaFate (f : FoundFile) (config : Config) : Fate :=
  match f.text config with
  | .error fate => fate
  | .ok text =>
    match Java.classes text with
    | [] => .noTypes
    | units => .classes units

/-- What becomes of any other file; `apart` tells whether resources have a directory of their
own. -/
def FoundFile.otherFate (f : FoundFile) (config : Config) (apart : Bool) : Fate :=
  let resource (names : List String) : Fate :=
    match f.text config with
    | .ok text => .resource ⟨resourceName names, text⟩
    | .error fate => fate
  if apart then
    match f.names with
    | top :: names => if top == resourcesName then resource names else .outside
    | [] => .outside
  else resource f.names

def Fate.units : Fate → List ClassUnit
  | .classes units => units
  | _ => []

def Fate.resource? : Fate → Option Resource
  | .resource r => some r
  | _ => none

/-- A file without classes or resource is reported, unless it stands outside of the resources. -/
def Fate.warning? (config : Config) (path : String) : Fate → Option LogLine
  | .oversized size =>
    some ⟨.warn, "Skipping " ++ path ++ " (" ++ toString size ++ " bytes exceeds limit of " ++
      toString config.maxFileSize ++ ")"⟩
  | .notText => some ⟨.warn, "Skipping non-UTF-8 file " ++ path⟩
  | .noTypes => some ⟨.warn, "No type declarations found in " ++ path⟩
  | _ => none

/-- The files that are loaded from the directory `t` at `path`. The name of the directory itself can
be excluded too. -/
def foundFiles (config : Config) (path : String) (t : FileTree) : List FoundFile :=
  if isExcluded config ((Path.fileName? path).getD path) then []
  else (t.files config).map fun f => ⟨f.1.foldl Path.join path, f.1, f.2⟩

/-- What becomes of each file in a directory. The Java files are gone through first. -/
def fatesIn (config : Config) (path : String) (t : FileTree) : List (FoundFile × Fate) :=
  let apart := (t.child? resourcesName).any FileTree.isDirectory
  let (java, others) := (foundFiles config path t).partition FoundFile.isJava
  java.map (fun f => (f, f.javaFate config)) ++ others.map fun f => (f, f.otherFate config apart)

/-- The corpus of a directory. -/
def corpusOf (fates : List (FoundFile × Fate)) : Corpus :=
  .ofParts (fates.flatMap (·.2.units)) (fates.filterMap (·.2.resource?))

def warningsOf (config : Config) (fates : List (FoundFile × Fate)) : List LogLine :=
  fates.filterMap fun f => f.2.warning? config f.1.path

/-- A corpus, and what was logged while it was loaded. -/
structure Loaded where
  corpus : Corpus
  log : List LogLine

/-- Loads what a path leads to. The limit on file sizes holds only for files in a directory. -/
def FileSystem.load (fs : FileSystem) (path : String) (config : Config) : Except Fault Loaded := do
  let done (corpus : Corpus) (log : List LogLine) : Loaded :=
    ⟨corpus, log ++ [⟨.info, "Loaded " ++ toString corpus.classes.length ++ " classes and " ++
      toString corpus.resources.length ++ " resources from " ++ path⟩]⟩
  match fs.tree? path with
  | none => .error (.missingInput path)
  | some (.directory es) =>
    let fates := fatesIn config path (.directory es)
    pure (done (corpusOf fates) (warningsOf config fates))
  | some (.file _) =>
    match (Path.fileName? path).bind Path.extension? with
    | some "json" =>
      let text ← fs.readText path
      match Corpus.ofJson text with
      | .ok corpus => pure (done corpus [])
      | .error defect => .error (.json path defect)
    | some "java" =>
      let text ← fs.readText path
      pure (done (.ofParts (Java.classes text) []) [])
    | _ => .error (.unsupportedInput path)

/-- Reads settings from a JSON file. -/
def FileSystem.loadConfig (fs : FileSystem) (path : String) : Except Fault Config := do
  let text ← fs.readText path
  match Config.ofJson text with
  | .ok config => pure config
  | .error defect => .error (.json path defect)

end AppSurface
