namespace AppSurface.Path

/-- Splits at every slash; `held` is the name under way, last character first. -/
def splitFrom (held : List Char) : List Char → List String
  | [] => [String.ofList held.reverse]
  | c :: s =>
    if c == '/' then String.ofList held.reverse :: splitFrom [] s else splitFrom (c :: held) s

def split (path : String) : List String := splitFrom [] path.toList

/-- The names on a path. Empty names and single dots name nothing. -/
def names (path : String) : List String :=
  (split path).filter fun name => name != "" && name != "."

/-- Goes one step on from a place, which is given by the names on the way to it from the top
directory. -/
def enter (place : List String) (step : String) : List String :=
  if step == "" || step == "." then place
  else if step == ".." then place.dropLast
  else place ++ [step]

/-- The name of the file that a path leads to, unless the path ends by going up. -/
def fileName? (path : String) : Option String :=
  match (names path).getLast? with
  | some ".." => none
  | last => last

/-- What follows the last dot of a file name. A dot in front does not count. -/
def extension? (name : String) : Option String :=
  let cs := name.toList
  let tail := cs.reverse.takeWhile (· != '.')
  if cs.length ≤ tail.length + 1 then none else some (String.ofList tail.reverse)

/-- A name in a directory. -/
def join (directory name : String) : String :=
  match directory.toList.reverse with
  | [] => name
  | '/' :: _ => directory ++ name
  | _ => directory ++ "/" ++ name

/-- Drops slashes and single dots at the end of a path, which is given last character first. -/
def trimEnd : List Char → List Char
  | [] => []
  | ['/'] => ['/']
  | '/' :: s => trimEnd s
  | '.' :: '/' :: s => trimEnd ('/' :: s)
  | s => s

/-- The path without its last name; `none` for the empty path and the top directory. -/
def parent? (path : String) : Option String :=
  match trimEnd path.toList.reverse with
  | [] => none
  | ['/'] => none
  | s => some (String.ofList (trimEnd (s.dropWhile (· != '/'))).reverse)

end AppSurface.Path
