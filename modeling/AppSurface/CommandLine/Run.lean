import AppSurface.CommandLine.Answer

namespace AppSurface.CommandLine

/-- The hops that a command asks for, where they matter. -/
def Command.maxDepth? : Command → Option Nat
  | .callGraph _ maxDepth _ => maxDepth
  | _ => none

/-- The configuration of a request: that of its file or else the default one, with what the
arguments say on top. -/
def Request.config (fs : FileSystem) (r : Request) : Except Failure Config := do
  let base ← match r.setting.config with
    | none => pure Config.default
    | some path => (fs.loadConfig path).mapError Failure.settings
  pure
    { base with
      inputPath := fs.canonical r.setting.path
      excludePatterns := base.excludePatterns ++ r.setting.excludes
      verbose := base.verbose || r.setting.verbose
      quiet := base.quiet || r.setting.quiet
      maxDepth := r.command.maxDepth?.getD base.maxDepth }

/-- Opens a session on what a request names. -/
def Request.openSession (fs : FileSystem) (r : Request) (read : PatternReader) :
    Except Failure Opened := do
  let config ← r.config fs
  (fs.openSession config read).mapError Failure.loading

/-- What a request does: it loads the application and answers on it, and it fails where that cannot
be done. -/
def Request.script (fs : FileSystem) (times : Times) (lib : Libraries) (r : Request) : Script :=
  match r.openSession fs lib.read with
  | .error failure => .fail failure
  | .ok opened => answer r.setting times lib opened.session r.command

/-- How a run ends, and what it has printed by then. -/
inductive Outcome where
  /-- The arguments are misused. -/
  | misused
  | ended (ending : Ending) (printed : String)

def Ending.exitCode : Ending → Nat
  | .failed _ => 1
  | .finished found => if found then 0 else 1

def Ending.errorText? : Ending → Option String
  | .failed failure => some ("error: " ++ failure.message)
  | .finished _ => none

namespace Outcome

def exitCode : Outcome → Nat
  | .misused => 2
  | .ended ending _ => ending.exitCode

/-- What is printed as the answer. -/
def printed : Outcome → String
  | .misused => ""
  | .ended _ printed => printed

/-- What is printed as an error. -/
def errorText? : Outcome → Option String
  | .misused => none
  | .ended ending _ => ending.errorText?

end Outcome

/-- Which log lines a request shows. -/
def Setting.shows (s : Setting) (l : LogLine) : Bool :=
  !s.quiet && (s.verbose || l.level == .warn)

/-- Runs a command line on files. -/
def run (fs : FileSystem) (times : Times) (args : List String)
    (lib : Libraries := .builtIn) : Outcome × FileSystem :=
  let perform (script : Script) : Outcome × FileSystem :=
    let (ending, console) := script.run ⟨fs, ""⟩
    (.ended ending console.printed, console.files)
  match Invocation.ofArguments args with
  | .misused => (.misused, fs)
  | .help topic => perform (.shown (lib.help topic))
  | .request r => perform (r.script fs times lib)

end AppSurface.CommandLine
