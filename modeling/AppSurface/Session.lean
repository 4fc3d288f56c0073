import AppSurface.Loading
import AppSurface.Manifest
import AppSurface.Report

namespace AppSurface

/-- What is known of the manifest. A manifest that cannot be read leaves its message. -/
inductive ManifestState where
  | missing
  | refused (message : String)
  | parsed (manifest : Manifest)

def ManifestState.ofCorpus (c : Corpus) : ManifestState :=
  match c.manifest? with
  | none => .missing
  | some document =>
    match Manifest.parse document with
    | .ok manifest => .parsed manifest
    | .error fault => .refused (Fault.message (.manifest fault))

structure Session where
  config : Config
  corpus : Corpus
  manifest : ManifestState
  detector : CallDetector

structure AppInfo where
  inputPath : String
  packageName : Option String
  totalClasses : Nat
  totalResources : Nat
  exportedComponents : Nat
  mainActivity : Option String
deriving DecidableEq

structure ClassDetails where
  fullName : String
  package : String
  methodCount : Nat
  fieldCount : Nat
  methods : List String
  fields : List String
  sourceCode : String
deriving DecidableEq

/-- The signature of every declaration of a method, overloads repeated. -/
def ClassUnit.signatures (u : ClassUnit) : List String :=
  u.methods.map fun m => (⟨u.fullName, m⟩ : MethodRef).signature

/-- Type and name of every field. -/
def ClassUnit.fieldTexts (u : ClassUnit) : List String := u.fields.map fun f => f.1 ++ " " ++ f.2

def ClassUnit.details (u : ClassUnit) : ClassDetails :=
  ⟨u.fullName, u.package, u.methods.length, u.fields.length, u.signatures, u.fieldTexts, u.source⟩

/-- A class is found by its full or simple name, by the end of its full name behind a dot, or by a
part of either name regardless of case. -/
def ClassUnit.answers (u : ClassUnit) (query : String) : Bool :=
  u.fullName == query || u.simpleName == query || Text.endsWith u.fullName ("." ++ query) ||
    Text.containsIgnoringCase u.fullName query || Text.containsIgnoringCase u.simpleName query

/-- Puts an entry at the place of its key in a list in ascending order of keys; an entry with the
same key is replaced. -/
def insertSorted {α : Type} (key : String) (x : α) : List (String × α) → List (String × α)
  | [] => [(key, x)]
  | e :: es =>
    if key == e.1 then (key, x) :: es
    else if decide (key < e.1) then (key, x) :: e :: es
    else e :: insertSorted key x es

namespace Session

/-- Opens a session. A manifest that is missing or cannot be read does not keep it from opening. -/
def start (corpus : Corpus) (config : Config) (read : PatternReader := Pattern.ofText?) :
    Except Fault Session :=
  match CallDetector.ofConfirmers config.confirmers read with
  | .error rule => .error (.badPattern rule)
  | .ok detector => .ok ⟨config, corpus, .ofCorpus corpus, detector⟩

/-- What is logged when a session is opened. -/
def openingLog (s : Session) : List LogLine :=
  match s.manifest with
  | .missing =>
    [⟨.warn, "No AndroidManifest.xml in corpus; component queries are unavailable"⟩]
  | .refused message => [⟨.warn, message⟩]
  | .parsed _ => []

def readManifest (s : Session) : Except Fault Manifest :=
  match s.manifest with
  | .missing => .error .noManifest
  | .refused message => .error (.refusedManifest message)
  | .parsed manifest => .ok manifest

def manifest? (s : Session) : Option Manifest :=
  match s.manifest with
  | .parsed manifest => some manifest
  | _ => none

def appInfo (s : Session) : AppInfo :=
  { inputPath := s.config.inputPath
    packageName := s.manifest?.map (·.package)
    totalClasses := s.corpus.classes.length
    totalResources := s.corpus.resources.length
    exportedComponents := (s.manifest?.map (·.components.length)).getD 0
    mainActivity := s.manifest?.bind (·.mainActivity) }

/-- The text of the manifest, whether it can be read or not. -/
def manifestText (s : Session) : Except Fault String :=
  match s.corpus.manifest? with
  | some text => .ok text
  | none => .error .noManifest

def packageName (s : Session) : Except Fault String := (·.package) <$> s.readManifest

def mainActivity (s : Session) : Except Fault (Option String) := (·.mainActivity) <$> s.readManifest

/-- The full names of all classes, in ascending order. -/
def classNames (s : Session) : List String := s.corpus.classes.map (·.fullName)

def findClass (s : Session) (name : String) : Except Fault ClassUnit :=
  match s.corpus.findClass? name with
  | some u => .ok u
  | none => .error (.classNotFound name)

def classSource (s : Session) (name : String) : Except Fault String :=
  (·.source) <$> s.findClass name

def classDetails (s : Session) (name : String) : Except Fault ClassDetails :=
  (·.details) <$> s.findClass name

def methodsOfClass (s : Session) (name : String) : Except Fault (List String) :=
  (·.signatures) <$> s.findClass name

def fieldsOfClass (s : Session) (name : String) : Except Fault (List String) :=
  (·.fieldTexts) <$> s.findClass name

/-- The text of a method, as located in the source of its class. -/
def methodSource (s : Session) (className methodName : String) : Except Fault String := do
  let u ← s.findClass className
  match Locator.body? u.source.toList methodName.toList with
  | some body => .ok (String.ofList body)
  | none => .error (.methodNotFound className methodName)

def searchClasses (s : Session) (query : String) : List ClassUnit :=
  s.corpus.classes.filter (·.answers query)

/-- The signatures of the methods whose names contain a text, by class in ascending order of names.
Of several classes of one name the last one with such methods is listed. -/
def searchMethods (s : Session) (query : String) : List (String × List String) :=
  s.corpus.classes.foldl
    (fun found u =>
      match u.methods.filter fun m => Text.contains m query with
      | [] => found
      | ms => insertSorted u.fullName (ms.map fun m => (⟨u.fullName, m⟩ : MethodRef).signature) found)
    []

def components (s : Session) : Except Fault (List Component) := (·.components) <$> s.readManifest

/-- The exported components by kind, for each kind that has any, in the order of the kinds. -/
def componentsByType (s : Session) : Except Fault (List (ComponentType × List Component)) :=
  Component.grouping <$> s.components

/-- The names of all resources, in ascending order. -/
def resourceNames (s : Session) : List String :=
  (s.corpus.resources.map (·.name)).mergeSort fun a b => decide (a ≤ b)

def resource (s : Session) (name : String) : Except Fault String :=
  match s.corpus.findResource? name with
  | some r => .ok r.content
  | none => .error (.resourceNotFound name)

def tracer (s : Session) : Tracer :=
  { detector := s.detector
    maxDepth := s.config.maxDepth
    suggestionLimit := s.config.suggestionLimit
    components := (s.manifest?.map (·.components)).getD [] }

/-- Traces the callers of every method that a query asks for. -/
def trace (s : Session) (query : String) : Trace := s.tracer.trace s.corpus query

def report (s : Session) (query : String) : Report :=
  (s.trace query).report query s.config.inputPath

end Session

/-- The phases of opening an application, with what is shown while they run. -/
def phases : List (String × String) :=
  [("corpus", "Loading decompiled sources"), ("manifest", "Classifying manifest components")]

/-- What is done around the opening of an application: how each of its phases is run, and where the
log goes. -/
structure Pipeline (m : Type → Type) where
  phase : {α : Type} → String → (Unit → α) → m α
  log : List LogLine → m Unit

/-- Opens a session over the application that a configuration names. -/
def FileSystem.openSessionIn {m : Type → Type} [Monad m] (pipeline : Pipeline m) (fs : FileSystem)
    (config : Config) (read : PatternReader) : m (Except Fault Session) := do
  match ← pipeline.phase "corpus" fun _ => fs.load config.inputPath config with
  | .error fault => pure (.error fault)
  | .ok loaded =>
    pipeline.log loaded.log
    match ← pipeline.phase "manifest" fun _ => Session.start loaded.corpus config read with
    | .error fault => pure (.error fault)
    | .ok session =>
      pipeline.log session.openingLog
      pure (.ok session)

/-- A session, and what was logged until it was ready but for the last line. -/
structure Opened where
  session : Session
  log : List LogLine

def FileSystem.openSession (fs : FileSystem) (config : Config)
    (read : PatternReader := Pattern.ofText?) : Except Fault Opened :=
  let collecting : Pipeline (StateM (List LogLine)) :=
    ⟨fun _ value => pure (value ()), fun lines => modify (· ++ lines)⟩
  let (session, log) := (fs.openSessionIn collecting config read).run []
  session.map fun session => ⟨session, log⟩

/-- What is logged when a session is ready, after `duration`. -/
def readyLine (duration : String) : LogLine := ⟨.info, "Session ready in " ++ duration⟩

open Json in
def AppInfo.toJson (i : AppInfo) : Value :=
  .obj [("input_path", .str i.inputPath), ("package_name", .ofOption i.packageName),
    ("total_classes", .num i.totalClasses), ("total_resources", .num i.totalResources),
    ("exported_components", .num i.exportedComponents),
    ("main_activity", .ofOption i.mainActivity)]

open Json in
def ClassDetails.toJson (d : ClassDetails) : Value :=
  .obj [("full_name", .str d.fullName), ("package", .str d.package),
    ("method_count", .num d.methodCount), ("field_count", .num d.fieldCount),
    ("methods", .strs d.methods), ("fields", .strs d.fields), ("source_code", .str d.sourceCode)]

end AppSurface
