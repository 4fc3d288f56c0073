import AppSurface.AdjacencyGraph
import AppSurface.Method
import Std.Data.TreeMap.Basic

namespace AppSurface

/-- What is stored at a node: a method, and the signature under which it was made. -/
structure CallNode where
  method : MethodRef
  signature : String
deriving DecidableEq

def CallNode.ofMethod (m : MethodRef) : CallNode := ⟨m, m.signature⟩

/-- Puts an index into an ascending list. -/
def insertIndex (i : Nat) : List Nat → List Nat
  | [] => [i]
  | j :: js => if i ≤ j then i :: j :: js else j :: insertIndex i js

def sortIndices (is : List Nat) : List Nat := is.foldr insertIndex []

/-- The reverse call graph: methods in order of creation, with an edge from each of them to each of
its recorded callers, and the index of every signature. -/
structure CallGraph where
  arena : AdjacencyGraph CallNode
  idIndex : Std.TreeMap String Nat

namespace CallGraph

def empty : CallGraph := ⟨.empty, ∅⟩

def nodeCount (g : CallGraph) : Nat := g.arena.nodeCount

/-- The pairs of a callee and one of its callers, in order of creation. -/
def edges (g : CallGraph) : List (Nat × Nat) := g.arena.edges

def edgeCount (g : CallGraph) : Nat := g.edges.length

def indices (g : CallGraph) : List Nat := List.range g.nodeCount

def nodes (g : CallGraph) : List CallNode := g.arena.weights

def stored? (g : CallGraph) (i : Nat) : Option CallNode := g.arena.weight? i

/-- The method of a node. -/
def node? (g : CallGraph) (i : Nat) : Option MethodRef := (g.stored? i).map (·.method)

/-- The index of the node with a signature. -/
def index? (g : CallGraph) (signature : String) : Option Nat := g.idIndex[signature]?

/-- The index of a method's node, which is created if no node has the method's signature. -/
def ensure (g : CallGraph) (m : MethodRef) : Nat × CallGraph :=
  match g.index? m.signature with
  | some i => (i, g)
  | none =>
    let (i, arena) := g.arena.addNode (.ofMethod m)
    (i, ⟨arena, g.idIndex.insert m.signature i⟩)

def ensureAll (g : CallGraph) : List MethodRef → List Nat × CallGraph
  | [] => ([], g)
  | m :: ms =>
    let (i, g) := g.ensure m
    let (is, g) := g.ensureAll ms
    (i :: is, g)

/-- Records a caller and tells whether it is a new one. A method is not its own caller, and no
caller is recorded twice. The answer is `none` if an edge would join an index that has no node. -/
def addCaller? (g : CallGraph) (callee caller : Nat) : Option (Bool × CallGraph) :=
  if callee == caller || g.arena.hasEdge (callee, caller) then some (false, g)
  else (g.arena.addEdge? (callee, caller)).map fun arena => (true, { g with arena })

/-- Records a caller where both nodes are known. -/
def link (g : CallGraph) (callee caller : Nat) : CallGraph :=
  match g.addCaller? callee caller with
  | some (_, g) => g
  | none => g

/-- The recorded callers of a node, in order of creation. -/
def callers (g : CallGraph) (callee : Nat) : List Nat :=
  sortIndices (g.arena.neighbours .outgoing callee)

/-- The nodes that a node is a recorded caller of, in order of creation. -/
def callees (g : CallGraph) (caller : Nat) : List Nat :=
  sortIndices (g.arena.neighbours .incoming caller)

/-- The signature of a node; empty for an index that has none. -/
def signatureAt (g : CallGraph) (i : Nat) : String :=
  match g.stored? i with
  | some n => n.signature
  | none => ""

end CallGraph

end AppSurface
