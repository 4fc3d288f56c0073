import AppSurface.CommandLine.Help
import AppSurface.CommandLine.Script
import AppSurface.Session

namespace AppSurface.CommandLine

/-- What is measured while a command runs, as texts: the time of day, how long each phase of loading
took, and how long the trace took. -/
structure Times where
  now : String
  phase : String → String
  trace : String

/-- Lines of a label and a text, the texts below each other. -/
def labelled (width : Nat) (rows : List (String × String)) : String :=
  String.join (rows.map fun r => "  " ++ padded width r.1 ++ " " ++ r.2 ++ "\n")

def heading (title : String) : String := "=== " ++ title ++ " ===\n"

def bullets (items : List String) : String :=
  String.join (items.map fun item => "  - " ++ item ++ "\n")

def counted (title : String) (items : List String) : String :=
  heading title ++ bullets items ++ "\nTotal: " ++ toString items.length ++ "\n"

def jsonText (v : Json.Value) : String := v.pretty ++ "\n"

/-- A text as such, or as a JSON string. -/
def shownText (json : Bool) (s : String) : String :=
  if json then jsonText (.str s) else s ++ "\n"

def shownList (json : Bool) (title : String) (items : List String) : String :=
  if json then jsonText (.strs items) else counted title items

def infoText (i : AppInfo) : String :=
  heading "APK INFO" ++
    labelled 22
      [("Input:", i.inputPath), ("Package:", i.packageName.getD "-"),
        ("Classes:", toString i.totalClasses), ("Resources:", toString i.totalResources),
        ("Exported components:", toString i.exportedComponents),
        ("Main activity:", i.mainActivity.getD "-")]

/-- How long each phase of loading took, by the name of the phase. -/
def phaseText (times : Times) : String :=
  "\n  Phase Timings:\n" ++
    String.join ((phases.map (·.1)).map fun phase =>
      "    " ++ padded 14 phase ++ " " ++ times.phase phase ++ "\n")

def componentsText (cs : List Component) : String :=
  heading ("EXPORTED COMPONENTS (" ++ toString cs.length ++ ")") ++
    String.join (cs.map fun c => "\n" ++ c.describe ++ "\n")

def shownComponents (json : Bool) (cs : List Component) : String :=
  if json then jsonText (.arr (cs.map (·.toJson))) else componentsText cs

def classesText (names : List String) : String :=
  heading ("ALL CLASSES (" ++ toString names.length ++ ")") ++
    String.join (names.map (· ++ "\n"))

def classText (d : ClassDetails) : String :=
  heading ("CLASS: " ++ d.fullName) ++
    labelled 10
      [("Package:", d.package), ("Methods:", toString d.methodCount),
        ("Fields:", toString d.fieldCount)] ++
    "\n" ++ d.sourceCode ++ "\n"

def foundMethodsText (query : String) (found : List (String × List String)) : String :=
  heading ("METHODS MATCHING: " ++ query) ++
    String.join (found.map fun c => "\n" ++ c.1 ++ "\n" ++ bullets c.2)

def foundMethodsJson (found : List (String × List String)) : Json.Value :=
  .obj (found.map fun c => (c.1, .strs c.2))

/-- An entry point, with the kind of component that exports it. -/
def entryText (e : EntryReport) : String :=
  "  - " ++ e.signature ++ "\n" ++
    match e.exported with
    | some c =>
      "    ^ EXPORTED " ++ String.ofList (c.type.name.toList.map Char.toUpper) ++ "\n"
    | none => ""

/-- A trace that found its method. -/
def tracedText (times : Times) (t : Trace) (r : Report) : String :=
  heading ("CALL GRAPH FOR: " ++ r.query) ++ t.renderTrees ++
    "\n" ++ heading "ENTRY POINTS" ++
    (if r.entryPoints.isEmpty then "No clear entry points found.\n" else "") ++
    String.join (r.entryPoints.map entryText) ++
    "\n" ++ heading "SUMMARY" ++
    labelled 14
      [("Targets:", toString r.stats.targets), ("Nodes:", toString r.stats.nodes),
        ("Entry points:", toString r.stats.entryPoints), ("Duration:", times.trace)]

/-- A trace that did not find its method. -/
def untracedText (r : Report) : String :=
  "✗ " ++ r.message ++ "\n" ++
    if r.suggestions.isEmpty then "" else "\nDid you mean:\n" ++ bullets r.suggestions

def traceText (times : Times) (t : Trace) (r : Report) : String :=
  if r.success then tracedText times t r else untracedText r

/-- The components of a kind, or all; the kind is read before the components. -/
def componentsOf (s : Session) : Option String → Except Fault (List Component)
  | none => s.components
  | some name =>
    match ComponentType.ofName? name with
    | none => .error (.unknownComponentType name)
    | some type => (·.filter fun c => c.type == type) <$> s.components

/-- The report of a trace as it is written. -/
def reportJson (times : Times) (lib : Libraries) (s : Session) (query : String) : Json.Value :=
  (s.report query).toJson times.now lib.order

/-- What is printed of a trace. -/
def traceShown (setting : Setting) (times : Times) (lib : Libraries) (s : Session)
    (query : String) : String :=
  if setting.json then jsonText (reportJson times lib s query)
  else traceText times (s.trace query) (s.report query)

/-- Traces the callers of a method. The report is written to a file before anything is printed, and
the run fails at its end if no method is meant by the query. -/
def traceCallers (setting : Setting) (times : Times) (lib : Libraries) (s : Session)
    (query : String) (output : Option String) : Script :=
  let shown := traceShown setting times lib s query
  let ended : Script := .finish (s.trace query).success
  match output with
  | none => .print shown ended
  | some path =>
    .write path (reportJson times lib s query).pretty <|
      .print shown <|
        if setting.quiet || setting.json then ended
        else .print ("\n  Output written to: " ++ path ++ "\n") ended

/-- What a command does on a loaded application. -/
def answer (setting : Setting) (times : Times) (lib : Libraries) (s : Session) : Command → Script
  | .info =>
    if setting.json then .shown (jsonText s.appInfo.toJson)
    else
      .print (infoText s.appInfo)
        (if setting.verbose then .shown (phaseText times) else .finish true)
  | .manifest => .given s.manifestText fun text => .shown (shownText setting.json text)
  | .mainActivity =>
    .given s.mainActivity fun activity => .shown
      (if setting.json then jsonText (.ofOption activity)
        else activity.getD "No main activity declared" ++ "\n")
  | .components type =>
    .given (componentsOf s type) fun cs => .shown (shownComponents setting.json cs)
  | .classes =>
    .shown (if setting.json then jsonText (.strs s.classNames) else classesText s.classNames)
  | .classDetails name =>
    .given (s.classDetails name) fun d => .shown
      (if setting.json then jsonText d.toJson else classText d)
  | .methods className =>
    .given (s.methodsOfClass className) fun items => .shown
      (shownList setting.json ("METHODS IN: " ++ className) items)
  | .fields className =>
    .given (s.fieldsOfClass className) fun items => .shown
      (shownList setting.json ("FIELDS IN: " ++ className) items)
  | .methodSource className methodName =>
    .given (s.methodSource className methodName) fun text => .shown (shownText setting.json text)
  | .searchClasses query =>
    .shown (shownList setting.json ("CLASSES MATCHING: " ++ query)
      ((s.searchClasses query).map (·.fullName)))
  | .searchMethods query =>
    let found := s.searchMethods query
    .shown (if setting.json then jsonText (foundMethodsJson found) else foundMethodsText query found)
  | .resources => .shown (shownList setting.json "RESOURCE FILES" s.resourceNames)
  | .resource name => .given (s.resource name) fun text => .shown (shownText setting.json text)
  | .callGraph query _ output => traceCallers setting times lib s query output

end AppSurface.CommandLine
