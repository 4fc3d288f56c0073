import AppSurface.CallEdge
import AppSurface.CallGraph
import AppSurface.Component
import AppSurface.Targets

namespace AppSurface

/-- The methods of a class that call the matcher's method. A class whose source does not mention
the method's name has none. -/
def ClassUnit.callers (u : ClassUnit) (m : CallMatcher) : List MethodRef :=
  if Text.contains u.source m.method then
    (u.methods.filter fun caller => m.calledBy u.source.toList caller).map fun caller =>
      ⟨u.fullName, caller⟩
  else []

/-- Every method of the corpus that calls a method of the given name, in corpus order. -/
def Corpus.callersOf (c : Corpus) (d : CallDetector) (method : String) : List MethodRef :=
  match d.matcher? method with
  | none => []
  | some m => c.classes.flatMap fun u => u.callers m

/-- A traversal under way: the graph so far and the nodes whose callers were looked for. -/
structure Walk where
  graph : CallGraph
  visited : List Nat

/-- Records the callers of a node and of its callers in turn, `hops` hops away at most. A node
whose callers were looked for before is left as it is. -/
def Walk.trace (callersOf : String → List MethodRef) : Nat → Nat → Walk → Walk
  | 0, _, w => w
  | hops + 1, i, w =>
    if w.visited.contains i then w
    else
      match w.graph.node? i with
      | none => w
      | some m =>
        (callersOf m.methodName).foldl
          (fun w caller =>
            let (j, g) := w.graph.ensure caller
            if j == i then { w with graph := g }
            else trace callersOf hops j { w with graph := g.link i j })
          { w with visited := i :: w.visited }

/-- A method without recorded callers, and the component that declares its class. -/
structure EntryPoint where
  node : Nat
  exported : Option Component
deriving DecidableEq

/-- What became of a request to trace callers. -/
inductive Trace where
  | traced (graph : CallGraph) (targets : List Nat) (entries : List EntryPoint)
  | unmatched (query : String) (suggestions : List String)
  | noTargets

namespace Trace

def success : Trace → Bool
  | .traced .. => true
  | _ => false

def message : Trace → String
  | .traced .. => "Call graph generated successfully"
  | .unmatched query _ => "Method not found: " ++ query
  | .noTargets => "No target methods given"

def graph : Trace → CallGraph
  | .traced g _ _ => g
  | _ => .empty

def targets : Trace → List Nat
  | .traced _ ts _ => ts
  | _ => []

def entries : Trace → List EntryPoint
  | .traced _ _ es => es
  | _ => []

def suggestions : Trace → List String
  | .unmatched _ names => names
  | _ => []

end Trace

/-- How callers are looked for: by which detector, how far, how many names are suggested when a
query matches nothing, and which components annotate entry points. -/
structure Tracer where
  detector : CallDetector
  maxDepth : Nat
  suggestionLimit : Nat
  components : List Component

namespace Tracer

/-- The first component whose name, with a dot, starts the method's signature. -/
def componentFor (t : Tracer) (m : MethodRef) : Option Component :=
  t.components.find? fun c => Text.startsWith m.signature (c.name ++ ".")

/-- The nodes that are no targets and have no recorded callers. -/
def entryPoints (t : Tracer) (g : CallGraph) (targets : List Nat) : List EntryPoint :=
  (g.indices.filter fun i => !targets.contains i && (g.callers i).isEmpty).map fun i =>
    ⟨i, (g.node? i).bind t.componentFor⟩

/-- The graph of the callers of some methods, and the nodes of these methods. -/
def graphOf (t : Tracer) (c : Corpus) (methods : List MethodRef) : List Nat × CallGraph :=
  let (targets, g) := CallGraph.empty.ensureAll methods
  let walk : Walk :=
    targets.foldl (fun w i => w.trace (c.callersOf t.detector) t.maxDepth i) ⟨g, []⟩
  (targets, walk.graph)

/-- Traces the callers of methods that are already resolved. -/
def traceFrom (t : Tracer) (c : Corpus) (methods : List MethodRef) : Trace :=
  if methods.isEmpty then .noTargets
  else
    let (targets, g) := t.graphOf c methods
    .traced g targets (t.entryPoints g targets)

/-- Traces the callers of every method that a query asks for. -/
def trace (t : Tracer) (c : Corpus) (query : String) : Trace :=
  match c.resolve query t.suggestionLimit with
  | .targets ms => t.traceFrom c ms
  | .suggestions names => .unmatched query names

end Tracer

end AppSurface
