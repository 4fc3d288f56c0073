import AppSurface.FileTree

namespace AppSurface.CommandLine

/-- Why a run ends without an answer. -/
inductive Failure where
  | settings (fault : Fault)
  | loading (fault : Fault)
  | query (fault : Fault)
  | output (fault : Fault)

def Failure.message : Failure → String
  | .settings fault => fault.message
  | .loading fault => "Loading failed: " ++ fault.message
  | .query fault => fault.message
  | .output fault => "Error writing output: " ++ fault.message

/-- The steps of a run, up to its end. -/
inductive Script where
  | print (text : String) (rest : Script)
  /-- Writes a text to a file; the run fails if that cannot be done. -/
  | write (path text : String) (rest : Script)
  | fail (failure : Failure)
  /-- The end, and whether the run found what it was asked for. -/
  | finish (found : Bool)

inductive Ending where
  | failed (failure : Failure)
  | finished (found : Bool)

/-- How texts are printed and written. -/
structure Handlers (m : Type → Type) where
  print : String → m Unit
  /-- Writes a text to a file, or tells what is in the way. -/
  write : String → String → m (Option Fault)

/-- What there is to see of a run: the files, and what has been printed so far. -/
structure Console where
  files : FileSystem
  printed : String

def Console.handlers : Handlers (StateM Console) where
  print text c := ((), { c with printed := c.printed ++ text })
  write path text c :=
    match c.files.writeText path text with
    | .ok files => (none, { c with files := files })
    | .error fault => (some fault, c)

namespace Script

/-- Prints a text and ends. -/
def shown (text : String) : Script := .print text (.finish true)

/-- Goes on with what a query gives, or fails. -/
def given {α : Type} (x : Except Fault α) (next : α → Script) : Script :=
  match x with
  | .error fault => .fail (.query fault)
  | .ok a => next a

/-- Takes the steps one after the other. What was printed before a run fails stays printed. -/
def runIn {m : Type → Type} [Monad m] (handlers : Handlers m) : Script → m Ending
  | .print text rest => do
    handlers.print text
    rest.runIn handlers
  | .write path text rest => do
    match ← handlers.write path text with
    | none => rest.runIn handlers
    | some fault => pure (.failed (.output fault))
  | .fail failure => pure (.failed failure)
  | .finish found => pure (.finished found)

def run (script : Script) (c : Console) : Ending × Console := script.runIn Console.handlers c

end Script

end AppSurface.CommandLine
