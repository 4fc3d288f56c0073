namespace AppSurface.CommandLine

/-- The arguments behind the name of a command, sorted by kind, each kind in its order. -/
structure Arguments where
  operands : List String
  flags : List String
  /-- Pairs of an option and its value. -/
  options : List (String × String)
deriving DecidableEq

namespace Arguments

def addOperand (a : Arguments) (x : String) : Arguments := { a with operands := x :: a.operands }

def addFlag (a : Arguments) (x : String) : Arguments := { a with flags := x :: a.flags }

def addOption (a : Arguments) (x value : String) : Arguments :=
  { a with options := (x, value) :: a.options }

/-- The values of an option, in order. -/
def values (a : Arguments) (option : String) : List String :=
  (a.options.filter fun o => o.1 == option).map (·.2)

def value? (a : Arguments) (option : String) : Option String := (a.values option).head?

def hasFlag (a : Arguments) (flag : String) : Bool := a.flags.contains flag

end Arguments

/-- An option as it is offered. One without the name of a value is a flag. -/
structure OptionUsage where
  short : Option Char
  name : String
  value : Option String
  about : String

/-- A command as it is offered: what it does, its operands besides the path, each with what it
means, and the options that other commands do not have. -/
structure CommandUsage where
  name : String
  about : String
  operands : List (String × String)
  options : List OptionUsage

/-- The options that every command has. -/
def sharedOptions : List OptionUsage :=
  [⟨none, "config", some "CONFIG", "JSON configuration file; flags override its values"⟩,
    ⟨none, "json", none, "Print results as JSON"⟩,
    ⟨none, "exclude", some "EXCLUDE", "Additional file or directory names to skip while loading"⟩,
    ⟨none, "verbose", none, "Log debug output and per-phase timings"⟩,
    ⟨none, "quiet", none, "Suppress all output except results and errors"⟩]

def commands : List CommandUsage :=
  [⟨"info", "Summarise the loaded application", [], []⟩,
    ⟨"manifest", "Print the raw AndroidManifest.xml", [], []⟩,
    ⟨"main-activity", "Print the launcher activity", [], []⟩,
    ⟨"components", "List exported components", [],
      [⟨none, "type", some "COMPONENT_TYPE",
        "Only show one component type (activity, service, receiver, provider)"⟩]⟩,
    ⟨"classes", "List every class", [], []⟩,
    ⟨"class", "Show a class's details and source", [("NAME", "Fully qualified class name")], []⟩,
    ⟨"methods", "List the methods of a class", [("CLASS", "")], []⟩,
    ⟨"fields", "List the fields of a class", [("CLASS", "")], []⟩,
    ⟨"method", "Print the source of one method", [("CLASS", ""), ("METHOD", "")], []⟩,
    ⟨"search-class", "Search classes by name", [("QUERY", "")], []⟩,
    ⟨"search-method", "Search methods by name across all classes", [("QUERY", "")], []⟩,
    ⟨"resources", "List resource files", [], []⟩,
    ⟨"resource", "Print one resource file", [("NAME", "")], []⟩,
    ⟨"callgraph", "Trace the callers of a method back to its entry points",
      [("METHOD", "Method name, `Class.method`, or a qualified suffix")],
      [⟨none, "max-depth", some "MAX_DEPTH", "Maximum caller hops from a target"⟩,
        ⟨some 'o', "output", some "OUTPUT", "Write the JSON report to this file"⟩]⟩]

def usage? (command : String) : Option CommandUsage := commands.find? fun u => u.name == command

/-- The flags that every command has. -/
def flagNames : List String := (sharedOptions.filter (·.value.isNone)).map (·.name)

/-- The options with a value that a command has. -/
def optionNames (command : String) : List String :=
  let own := ((usage? command).map (·.options)).getD []
  ((sharedOptions ++ own).filter (·.value.isSome)).map (·.name)

/-- The options that have a short name as well. -/
def shortNames : List (Char × String) :=
  (commands.flatMap (·.options)).filterMap fun o => o.short.map fun c => (c, o.name)

/-- What a single argument is. -/
inductive Word where
  | operand
  /-- All later arguments are operands. -/
  | endOfOptions
  /-- Asks for help instead of an answer. -/
  | help
  /-- An option by its name, with the value that is attached to it. -/
  | option (name : String) (value : Option String)
  | unknown
deriving DecidableEq

/-- Reads an argument. The value of an option is attached behind an equals sign, which may be
missing behind a short name. -/
def Word.ofChars : List Char → Word
  | ['-', '-'] => .endOfOptions
  | '-' :: '-' :: s =>
    let name := String.ofList (s.takeWhile (· != '='))
    match s.dropWhile (· != '=') with
    | [] => if name == "help" then .help else .option name none
    | _ :: value => .option name (some (String.ofList value))
  | ['-'] => .operand
  | '-' :: 'h' :: _ => .help
  | '-' :: c :: s =>
    match shortNames.find? fun n => n.1 == c with
    | none => .unknown
    | some (_, name) =>
      match s with
      | [] => .option name none
      | '=' :: value => .option name (some (String.ofList value))
      | value => .option name (some (String.ofList value))
  | _ => .operand

/-- Sorts arguments by kind. An option that the command does not have is refused, and so is a
missing value, a value that looks like an option, and the value of a flag. -/
def Arguments.gather (command : String) : List String → Option Arguments
  | [] => some ⟨[], [], []⟩
  | x :: xs =>
    match Word.ofChars x.toList with
    | .endOfOptions => some ⟨xs, [], []⟩
    | .operand => (gather command xs).map (·.addOperand x)
    | .help => none
    | .unknown => none
    | .option name (some value) =>
      if (optionNames command).contains name then
        (gather command xs).map (·.addOption name value)
      else none
    | .option name none =>
      if flagNames.contains name then (gather command xs).map (·.addFlag name)
      else if (optionNames command).contains name then
        match xs with
        | [] => none
        | value :: xs =>
          if Word.ofChars value.toList = .operand then
            (gather command xs).map (·.addOption name value)
          else none
      else none

/-- No name twice, one apart. -/
def onceEach (repeatable : String) : List String → Bool
  | [] => true
  | x :: xs => (x == repeatable || !xs.contains x) && onceEach repeatable xs

/-- A path is not empty. -/
def pathText? (s : String) : Option String := if s.isEmpty then none else some s

/-- Reads a number below `2 ^ 64`, in digits behind an optional plus sign. -/
def number? (s : String) : Option Nat :=
  let digits := match s.toList with
    | '+' :: ds => ds
    | ds => ds
  if !digits.isEmpty && digits.all Char.isDigit then
    let n := digits.foldl (fun n d => 10 * n + (d.toNat - '0'.toNat)) 0
    if n < UInt64.size then some n else none
  else none

/-- Reads the value of an option that need not be given. -/
def Arguments.read? {α : Type} (a : Arguments) (option : String) (reader : String → Option α) :
    Option (Option α) :=
  match a.value? option with
  | none => some none
  | some value => (reader value).map some

/-- What every command is told: what to load and how to show the answer. -/
structure Setting where
  path : String
  config : Option String
  json : Bool
  excludes : List String
  verbose : Bool
  quiet : Bool
deriving DecidableEq

inductive Command where
  | info
  | manifest
  | mainActivity
  | components (type : Option String)
  | classes
  | classDetails (name : String)
  | methods (className : String)
  | fields (className : String)
  | methodSource (className methodName : String)
  | searchClasses (query : String)
  | searchMethods (query : String)
  | resources
  | resource (name : String)
  | callGraph (query : String) (maxDepth : Option Nat) (output : Option String)
deriving DecidableEq

/-- A command with its operands, the path apart. -/
def Command.ofArguments? (name : String) (operands : List String) (a : Arguments) :
    Option Command :=
  match name, operands with
  | "info", [] => some .info
  | "manifest", [] => some .manifest
  | "main-activity", [] => some .mainActivity
  | "components", [] => some (.components (a.value? "type"))
  | "classes", [] => some .classes
  | "class", [name] => some (.classDetails name)
  | "methods", [className] => some (.methods className)
  | "fields", [className] => some (.fields className)
  | "method", [className, methodName] => some (.methodSource className methodName)
  | "search-class", [query] => some (.searchClasses query)
  | "search-method", [query] => some (.searchMethods query)
  | "resources", [] => some .resources
  | "resource", [name] => some (.resource name)
  | "callgraph", [query] => do
    let maxDepth ← a.read? "max-depth" number?
    let output ← a.read? "output" pathText?
    some (.callGraph query maxDepth output)
  | _, _ => none

structure Request where
  setting : Setting
  command : Command
deriving DecidableEq

/-- No option is given twice but the names to exclude. -/
def Arguments.distinct (a : Arguments) : Bool :=
  onceEach "exclude" (a.options.map (·.1)) && onceEach "exclude" a.flags

/-- What arguments ask for; `none` if they are misused. -/
def Request.ofArguments? : List String → Option Request
  | [] => none
  | name :: rest => do
    let a ← Arguments.gather name rest
    if a.distinct then
      match a.operands with
      | [] => none
      | path :: operands =>
        let command ← Command.ofArguments? name operands a
        let path ← pathText? path
        let config ← a.read? "config" pathText?
        some
          { setting :=
              { path := path
                config := config
                json := a.hasFlag "json"
                excludes := a.values "exclude"
                verbose := a.hasFlag "verbose"
                quiet := a.hasFlag "quiet" }
            command := command }
    else none

/-- The arguments in front of the first one that asks for help. One that stands for the value of an
option does not ask. -/
def beforeHelp? (command : String) : List String → Option (List String)
  | [] => none
  | x :: xs =>
    match Word.ofChars x.toList with
    | .help => some []
    | .endOfOptions => none
    | .option name none =>
      if (optionNames command).contains name then
        match xs with
        | [] => none
        | value :: xs => (beforeHelp? command xs).map fun front => x :: value :: front
      else (x :: ·) <$> beforeHelp? command xs
    | _ => (x :: ·) <$> beforeHelp? command xs

/-- Whether nothing is wrong with arguments so far. Operands may still be missing. -/
def Arguments.areSound (a : Arguments) (command : CommandUsage) : Bool :=
  a.distinct && decide (a.operands.length ≤ command.operands.length + 1) &&
    (a.operands.head?.all fun path => (pathText? path).isSome) &&
    (a.read? "config" pathText?).isSome && (a.read? "output" pathText?).isSome &&
    (a.read? "max-depth" number?).isSome

/-- What the help that arguments ask for is about: a command, or none for the whole program. -/
def helpTopic? : List String → Option (Option String)
  | [] => none
  | ["help"] => some none
  | ["help", name] =>
    if name == "help" || (usage? name).isSome then some (some name) else none
  | name :: rest =>
    if Word.ofChars name.toList = .help then some none
    else do
      let command ← usage? name
      let front ← beforeHelp? name rest
      let a ← Arguments.gather name front
      if a.areSound command then some (some name) else none

/-- What a command line asks for. -/
inductive Invocation where
  | misused
  | help (topic : Option String)
  | request (r : Request)
deriving DecidableEq

def Invocation.ofArguments (args : List String) : Invocation :=
  match helpTopic? args with
  | some topic => .help topic
  | none =>
    match Request.ofArguments? args with
    | some r => .request r
    | none => .misused

end AppSurface.CommandLine
