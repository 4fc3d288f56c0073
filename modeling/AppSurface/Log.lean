import AppSurface.Callers

namespace AppSurface

inductive LogLevel where
  | debug
  | info
  | warn
deriving DecidableEq

structure LogLine where
  level : LogLevel
  message : String
deriving DecidableEq

def LogLevel.name : LogLevel → String
  | .debug => "DEBUG"
  | .info => "INFO"
  | .warn => "WARN"

def LogLine.render (l : LogLine) : String := l.level.name ++ " " ++ l.message

/-- What is logged of a trace. -/
def Trace.log : Trace → List LogLine
  | .traced g targets entries =>
    (targets.map fun i => ⟨.debug, "Tracing callers of " ++ g.signatureAt i⟩) ++
      [⟨.info, "Call graph: " ++ toString targets.length ++ " targets, " ++
        toString g.nodeCount ++ " nodes, " ++ toString g.edgeCount ++ " edges, " ++
        toString entries.length ++ " entry points"⟩]
  | .unmatched query suggestions =>
    [⟨.info, "No method matches '" ++ query ++ "' (" ++ toString suggestions.length ++
      " suggestions)"⟩]
  | .noTargets => []

end AppSurface
