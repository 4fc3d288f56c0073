import AppSurface.Fault
import AppSurface.Path

namespace AppSurface

/-- What is at a place of a file system. Names are texts: one whose bytes are no UTF-8 has no place
here. -/
inductive FileTree where
  | file (content : ByteArray)
  | directory (entries : List (String × FileTree))

namespace FileTree

def isDirectory : FileTree → Bool
  | .file _ => false
  | .directory _ => true

def entries : FileTree → List (String × FileTree)
  | .file _ => []
  | .directory es => es

def child? (t : FileTree) (name : String) : Option FileTree :=
  (t.entries.find? fun e => e.1 == name).map (·.2)

/-- The tree at the end of some names. -/
def below? : FileTree → List String → Option FileTree
  | t, [] => some t
  | t, name :: names => (t.child? name).bind fun u => u.below? names

/-- Replaces what a name leads to, or adds it. -/
def setEntry (name : String) (t : FileTree) : List (String × FileTree) → List (String × FileTree)
  | [] => [(name, t)]
  | e :: es => if e.1 == name then (name, t) :: es else e :: setEntry name t es

/-- Puts the tree `new` at the end of some names; missing directories are made, and a file in the
way is left as it is. -/
def put (new : FileTree) : List String → FileTree → FileTree
  | [], _ => new
  | _ :: _, .file content => .file content
  | name :: names, .directory es =>
    .directory (setEntry name (put new names (((directory es).child? name).getD (directory []))) es)

/-- What steps from a place lead to, and its own place. Every step leaves from a directory. -/
def follow (root : FileTree) (place : List String) :
    List String → Except FileFault (List String × FileTree)
  | [] =>
    match root.below? place with
    | none => .error .notFound
    | some t => .ok (place, t)
  | step :: steps =>
    match root.below? place with
    | none => .error .notFound
    | some (.file _) => .error .notDirectory
    | some (.directory _) => follow root (Path.enter place step) steps

/-- Makes the directories that are missing on some steps from a place. -/
def makeDirectories (root : FileTree) (place : List String) :
    List String → Except FileFault FileTree
  | [] =>
    match root.below? place with
    | none => .ok (put (.directory []) place root)
    | some (.file _) => .error .isFile
    | some (.directory _) => .ok root
  | step :: steps =>
    match root.below? place with
    | none => makeDirectories (put (.directory []) place root) (Path.enter place step) steps
    | some (.file _) => .error .notDirectory
    | some (.directory _) => makeDirectories root (Path.enter place step) steps

end FileTree

/-- All files, and the names of the directory that relative paths start from. -/
structure FileSystem where
  root : FileTree
  current : List String

namespace FileSystem

/-- The place that a path starts from. -/
def origin (fs : FileSystem) (path : String) : List String :=
  match path.toList with
  | '/' :: _ => []
  | _ => fs.current

/-- What a path leads to, and its place. -/
def locate (fs : FileSystem) (path : String) : Except FileFault (List String × FileTree) :=
  if path.isEmpty then .error .notFound
  else fs.root.follow (fs.origin path) (Path.split path)

def tree? (fs : FileSystem) (path : String) : Option FileTree :=
  match fs.locate path with
  | .ok (_, t) => some t
  | .error _ => none

/-- The path from the top directory to what a path leads to, or the path itself if it leads
nowhere. -/
def canonical (fs : FileSystem) (path : String) : String :=
  match fs.locate path with
  | .ok (names, _) => "/" ++ "/".intercalate names
  | .error _ => path

/-- The text of a file. -/
def readText (fs : FileSystem) (path : String) : Except Fault String :=
  match fs.locate path with
  | .error fault => .error (.file path fault)
  | .ok (_, .directory _) => .error (.file path .isDirectory)
  | .ok (_, .file content) =>
    match String.fromUTF8? content with
    | some text => .ok text
    | none => .error (.file path .notText)

/-- Makes the directories that are missing on a path. -/
def makeParents (fs : FileSystem) (path : String) : Except FileFault FileSystem :=
  if path.isEmpty then .ok fs
  else do
    let root ← fs.root.makeDirectories (fs.origin path) (Path.split path)
    .ok { fs with root := root }

/-- Puts a file with a text at a path whose directory exists. -/
def putText (fs : FileSystem) (path text : String) : Except FileFault FileSystem :=
  let steps := Path.split path
  let name := steps.getLastD ""
  if path.isEmpty then .error .notFound
  else if name == "" then .error .isDirectory
  else
    match fs.root.follow (fs.origin path) steps.dropLast with
    | .error fault => .error fault
    | .ok (_, .file _) => .error .notDirectory
    | .ok (place, .directory _) =>
      if name == "." || name == ".." then .error .isDirectory
      else
        match fs.root.below? (place ++ [name]) with
        | some (.directory _) => .error .isDirectory
        | _ => .ok { fs with root := .put (.file text.toUTF8) (place ++ [name]) fs.root }

/-- Writes a file, and makes the directories on the way to it. -/
def writeText (fs : FileSystem) (path text : String) : Except Fault FileSystem :=
  let parent := (Path.parent? path).getD ""
  match fs.makeParents parent with
  | .error fault => .error (.file parent fault)
  | .ok fs =>
    match fs.putText path text with
    | .error fault => .error (.file path fault)
    | .ok fs => .ok fs

end FileSystem

end AppSurface
