import AppSurface.Callers

namespace AppSurface

/-- A method and its callers. A method that was shown before in the same tree is marked as
recursive and shown without callers. -/
inductive CallerTree where
  | node (signature : String) (recursive : Bool) (callers : List CallerTree)

namespace CallerTree

def signature : CallerTree → String
  | .node s _ _ => s

def recursive : CallerTree → Bool
  | .node _ r _ => r

def callers : CallerTree → List CallerTree
  | .node _ _ cs => cs

/-- Trees have no more than this many levels below their root. -/
def depthLimit : Nat := 10

/-- Runs a step on each item, which may note more items as shown. -/
def collect {α : Type} (step : List Nat → Nat → α × List Nat) :
    List Nat → List Nat → List α × List Nat
  | shown, [] => ([], shown)
  | shown, i :: is =>
    let (a, shown) := step shown i
    let (as, shown) := collect step shown is
    (a :: as, shown)

/-- The tree below a node, `levels` levels deep, and the nodes shown by then. -/
def grow (g : CallGraph) : Nat → List Nat → Nat → CallerTree × List Nat
  | levels, shown, i =>
    if shown.contains i then (.node (g.signatureAt i) true [], shown)
    else
      match levels with
      | 0 => (.node (g.signatureAt i) false [], i :: shown)
      | levels + 1 =>
        let (trees, shown) := collect (grow g levels) (i :: shown) (g.callers i)
        (.node (g.signatureAt i) false trees, shown)

def ofTarget (g : CallGraph) (target : Nat) : CallerTree := (grow g depthLimit [] target).1

/-- The mark in front of a signature, by the level it stands on. -/
def indent : Nat → String
  | 0 => ""
  | 1 => "└── "
  | n + 2 => "    " ++ indent (n + 1)

mutual

/-- One line for each method, callers below and behind the method they call. -/
def render (level : Nat) : CallerTree → String
  | .node s r cs =>
    indent level ++ s ++ (if r then " [RECURSIVE]" else "") ++ "\n" ++ renderAll (level + 1) cs

def renderAll (level : Nat) : List CallerTree → String
  | [] => ""
  | t :: ts => render level t ++ renderAll level ts

end

end CallerTree

/-- One tree for each target. -/
def Trace.callerTrees (t : Trace) : List CallerTree :=
  t.targets.map (CallerTree.ofTarget t.graph)

def Trace.renderTrees (t : Trace) : String := CallerTree.renderAll 0 t.callerTrees

end AppSurface
