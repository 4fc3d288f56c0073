import AppSurface.CommandLine.Arguments
import AppSurface.Report

namespace AppSurface.CommandLine

/-- Fills a text with blanks up to a width. -/
def padded (width : Nat) (s : String) : String :=
  s ++ String.ofList (List.replicate (width - s.length) ' ')

/-- A section of a help text: what is offered, and beside it what it is for. -/
def helpSection (title : String) (rows : List (String × String)) : String :=
  let width := (rows.map fun r => r.1.length).foldl max 0
  title ++ ":\n" ++ String.join (rows.map fun r => "  " ++ padded width r.1 ++ "  " ++ r.2 ++ "\n")

def helpOption : String × String := ("-h, --help", "Print help")

def helpCommand : String × String :=
  ("help", "Print this message or the help of the given subcommand(s)")

def OptionUsage.row (o : OptionUsage) : String × String :=
  let short := match o.short with
    | some c => String.ofList ['-', c, ',', ' ']
    | none => "    "
  let value := match o.value with
    | some name => " <" ++ name ++ ">"
    | none => ""
  (short ++ "--" ++ o.name ++ value, o.about)

/-- The help on a command. -/
def CommandUsage.help (c : CommandUsage) : String :=
  let path := ("PATH", "Decompiler output directory (sources/ + resources/) or JSON corpus dump")
  let operands := (path :: c.operands).map fun o => ("<" ++ o.1 ++ ">", o.2)
  let options := (sharedOptions ++ c.options).map OptionUsage.row ++ [helpOption]
  c.about ++ "\n\nUsage: apkscope " ++ c.name ++ " [OPTIONS] " ++
    " ".intercalate (operands.map (·.1)) ++ "\n\n" ++ helpSection "Arguments" operands ++ "\n" ++
    helpSection "Options" options

/-- The help on the whole program. -/
def programHelp : String :=
  "apkscope - Map the attack surface of a decompiled Android application\n\n" ++
    "Usage: apkscope <COMMAND>\n\n" ++
    helpSection "Commands" (commands.map (fun c => (c.name, c.about)) ++ [helpCommand]) ++ "\n" ++
    helpSection "Options" [helpOption]

/-- The help on a topic. -/
def helpText : Option String → String
  | none => programHelp
  | some name =>
    match usage? name with
    | some c => c.help
    | none =>
      helpCommand.2 ++ "\n\nUsage: apkscope help [COMMAND]...\n\n" ++
        helpSection "Arguments" [("[COMMAND]...", "Print help for the subcommand(s)")]

/-- What a command line takes from elsewhere: how regular expressions are read, in which order the
members of a table are written, and the texts of the help. -/
structure Libraries where
  read : PatternReader
  order : MemberOrder
  help : Option String → String

def Libraries.builtIn : Libraries := ⟨Pattern.ofText?, .asGiven, helpText⟩

end AppSurface.CommandLine
