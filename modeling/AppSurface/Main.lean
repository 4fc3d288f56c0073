import AppSurface.CommandLine.Run
import Std.Time

namespace AppSurface.Main

open CommandLine

/-- Everything at a place, as far as it can be read. -/
partial def snapshot (place : IO.FS.DirEntry) : IO (Option FileTree) := do
  try
    if ← place.path.isDir then
      let mut entries : List (String × FileTree) := []
      for entry in ← place.path.readDir do
        if let some t ← snapshot entry then
          entries := (entry.fileName, t) :: entries
      return some (.directory entries)
    else
      return some (.file (← IO.FS.readBinFile place.path))
  catch _ => return none

/-- Adds what a path leads to, and the directories on the way. -/
def add (fs : FileSystem) (path : String) : IO FileSystem := do
  match ← snapshot ⟨".", path⟩ with
  | none => return fs
  | some t =>
    let fs := (fs.makeParents ((Path.parent? path).getD "")).toOption.getD fs
    let place := (Path.split path).foldl Path.enter (fs.origin path)
    return { fs with root := FileTree.put t place fs.root }

/-- The path from the top directory, or the path itself if it leads nowhere. -/
def realPath (path : String) : IO String := do
  try return (← IO.FS.realPath path).toString
  catch _ => return path

/-- A request with its path from the top directory, and the files that it names. -/
def filesOf (r : Request) : IO (Request × FileSystem) := do
  let current := Path.names (← IO.currentDir).toString
  let path ← realPath r.setting.path
  let fs ← add ⟨FileTree.put (.directory []) current (.directory []), current⟩ path
  let fs ← match r.setting.config with
    | none => pure fs
    | some config => add fs config
  return ({ r with setting := { r.setting with path := path } }, fs)

/-- The time of day in UTC. -/
def now : IO String := do
  let wall := (← Std.Time.Timestamp.now).toWallTime .zero
  return (Std.Time.PlainDateTime.ofWallTime wall).format "uuuu-MM-dd'T'HH:mm:ss.SSSSSSSSS" ++
    "+00:00"

/-- A span in milliseconds with one decimal. -/
def span (started ended : Nat) : String :=
  let tenths := (ended - started + 50000) / 100000
  toString (tenths / 10) ++ "." ++ toString (tenths % 10)

/-- Evaluates a value and tells how long that took. -/
def timed {α : Type} (value : Unit → α) : IO (α × String) := do
  let started ← IO.monoNanosNow
  let a ← IO.lazyPure value
  let ended ← IO.monoNanosNow
  return (a, span started ended ++ "ms")

def report (log : List LogLine) (setting : Setting) : IO Unit := do
  for line in log.filter setting.shows do
    IO.eprintln line.render

/-- What an error of the system says about a file. -/
def faultOf (path : String) (e : IO.Error) : Fault :=
  .file path <|
    match e with
    | .noFileOrDirectory .. => .notFound
    | .alreadyExists .. => .isFile
    | .inappropriateType .. => .notDirectory
    | e => .other (toString e)

/-- Writes a text to a file, and makes the directories on the way to it. -/
def write (path text : String) : IO (Option Fault) := do
  let parent := (Path.parent? path).getD ""
  try
    if !parent.isEmpty then IO.FS.createDirAll parent
  catch e => return some (faultOf parent e)
  try
    IO.FS.writeFile path text
    return none
  catch e => return some (faultOf path e)

def handlers : Handlers IO := ⟨fun text => IO.print text, write⟩

/-- Takes the steps of a script on the real files, up to the exit status. -/
def perform (script : Script) : IO UInt32 := do
  let ending ← script.runIn handlers
  for text in ending.errorText? do
    IO.eprintln text
  return UInt32.ofNat ending.exitCode

/-- The phases of opening an application, each one with the time it took. -/
def pipeline (setting : Setting) : Pipeline (StateT (List (String × String)) IO) where
  phase name value := do
    let (a, time) ← timed value
    modify ((name, time) :: ·)
    return a
  log lines := report lines setting

/-- Traces nothing by itself: the time that a trace takes is that of its graph. -/
def traceTime (session : Session) : Command → IO String
  | .callGraph query _ _ => do
    let (_, time) ← timed fun _ => (session.trace query).graph.nodeCount
    return time
  | _ => return ""

def serve (lib : Libraries) (r : Request) : IO UInt32 := do
  let (r, fs) ← filesOf r
  match r.config fs with
  | .error failure => perform (.fail failure)
  | .ok config =>
    let started ← IO.monoNanosNow
    let (opened, phases) ← (fs.openSessionIn (pipeline r.setting) config lib.read).run []
    match opened with
    | .error fault => perform (.fail (.loading fault))
    | .ok session =>
      report [readyLine (span started (← IO.monoNanosNow) ++ " ms")] r.setting
      let times : Times :=
        { now := ← now
          phase := fun name => (phases.lookup name).getD ""
          trace := ← traceTime session r.command }
      perform (answer r.setting times lib session r.command)

end AppSurface.Main

/-- Misused arguments end with status 2. -/
def main (args : List String) : IO UInt32 := do
  match AppSurface.CommandLine.Invocation.ofArguments args with
  | .misused =>
    IO.eprintln "error: usage: apkscope <COMMAND> [OPTIONS] <PATH>"
    return UInt32.ofNat AppSurface.CommandLine.Outcome.misused.exitCode
  | .help topic =>
    AppSurface.Main.perform (.shown (AppSurface.CommandLine.Libraries.builtIn.help topic))
  | .request r => AppSurface.Main.serve .builtIn r
