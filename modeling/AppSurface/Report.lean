import AppSurface.CallerTree
import AppSurface.Json.Value

namespace AppSurface

structure NodeReport where
  signature : String
  className : String
  methodName : String
  callers : List String
deriving DecidableEq

structure EntryReport where
  signature : String
  exported : Option Component
deriving DecidableEq

structure Stats where
  nodes : Nat
  edges : Nat
  targets : Nat
  entryPoints : Nat
  exportedEntryPoints : Nat
deriving DecidableEq

structure Report where
  query : String
  success : Bool
  message : String
  targets : List String
  entryPoints : List EntryReport
  callerTrees : List CallerTree
  nodes : List NodeReport
  suggestions : List String
  stats : Stats
  inputPath : String

def Trace.nodeReports (t : Trace) : List NodeReport :=
  t.graph.nodes.mapIdx fun i n =>
    ⟨n.signature, n.method.className, n.method.methodName,
      (t.graph.callers i).map t.graph.signatureAt⟩

def Trace.entryReports (t : Trace) : List EntryReport :=
  t.entries.map fun e => ⟨t.graph.signatureAt e.node, e.exported⟩

/-- The report of a trace that was asked for by `query`. -/
def Trace.report (t : Trace) (query inputPath : String) : Report where
  query := query
  success := t.success
  message := t.message
  targets := t.targets.map t.graph.signatureAt
  entryPoints := t.entryReports
  callerTrees := t.callerTrees
  nodes := t.nodeReports
  suggestions := t.suggestions
  stats :=
    { nodes := t.graph.nodeCount
      edges := t.graph.edgeCount
      targets := t.targets.length
      entryPoints := t.entries.length
      exportedEntryPoints := (t.entries.filter fun e => e.exported.isSome).length }
  inputPath := inputPath

open Json in
def NodeReport.toJson (n : NodeReport) : Value :=
  .obj [("signature", .str n.signature), ("class_name", .str n.className),
    ("method_name", .str n.methodName), ("callers", .strs n.callers)]

open Json in
/-- The annotation is left out when there is none. -/
def EntryReport.toJson (e : EntryReport) : Value :=
  .obj (("signature", .str e.signature) ::
    match e.exported with
    | some c => [("exported", c.toJson)]
    | none => [])

namespace CallerTree

open Json

mutual

/-- The mark is left out when it is not set, and so are the callers when there are none. -/
def toJson : CallerTree → Value
  | .node s r cs =>
    .obj (("signature", .str s) ::
      ((if r then [("recursive", .bool true)] else []) ++
        match cs with
        | [] => []
        | c :: cs => [("callers", .arr (toJson c :: allToJson cs))]))

def allToJson : List CallerTree → List Value
  | [] => []
  | t :: ts => toJson t :: allToJson ts

end

end CallerTree

/-- An order for the members of an object that is written from a table without one. -/
structure MemberOrder where
  arrange : List (String × Json.Value) → List (String × Json.Value)
  perm : ∀ members, (arrange members).Perm members

def MemberOrder.asGiven : MemberOrder := ⟨id, fun _ => .refl _⟩

open Json in
def Stats.toJson (s : Stats) (order : MemberOrder := .asGiven) : Value :=
  .obj (order.arrange [("nodes", .num s.nodes), ("edges", .num s.edges),
    ("targets", .num s.targets), ("entry_points", .num s.entryPoints),
    ("exported_entry_points", .num s.exportedEntryPoints)])

/-- The version that reports carry. -/
def reportVersion : String := "0.1.0"

open Json in
/-- The report as it is written; `time` tells when. -/
def Report.toJson (r : Report) (time : String) (order : MemberOrder := .asGiven) : Value :=
  .obj [("query", .str r.query), ("success", .bool r.success), ("message", .str r.message),
    ("targets", .strs r.targets), ("entry_points", .arr (r.entryPoints.map (·.toJson))),
    ("caller_trees", .arr (CallerTree.allToJson r.callerTrees)),
    ("nodes", .arr (r.nodes.map (·.toJson))), ("suggestions", .strs r.suggestions),
    ("stats", r.stats.toJson order),
    ("metadata", .obj (order.arrange [("input_path", .str r.inputPath),
      ("generated_at", .str time), ("apkscope_version", .str reportVersion)]))]

end AppSurface
