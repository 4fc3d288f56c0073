import AppSurface.CommandLine.Answer
import AppSurface.Proofs.TargetResolution

namespace AppSurface.CommandLine

variable {fs : FileSystem} {setting : Setting} {times : Times} {lib : Libraries} {s : Session}
  {command : Command} {className methodName name text : String}

namespace Script

variable {rest : Script} {c : Console} {path : String} {fault : Fault}

@[simp] theorem run_print :
    (print text rest).run c = rest.run { c with printed := c.printed ++ text } := rfl

@[simp] theorem run_finish {found : Bool} : (finish found).run c = (.finished found, c) := rfl

/-- A script prints a text and ends, having found what it was asked for. -/
def Shows (text : String) (script : Script) : Prop :=
  ∀ c : Console, script.run c = (.finished true, { c with printed := c.printed ++ text })

end Script

/-- The files behind a command: the report of a trace is written if there is a file for it. -/
def Command.Writes (fs : FileSystem) (times : Times) (lib : Libraries) (s : Session) :
    Command → FileSystem → Prop
  | .callGraph query _ (some path), files =>
    fs.writeText path (reportJson times lib s query).pretty = .ok files
  | _, files => files = fs

section Queries

end Queries

end AppSurface.CommandLine
