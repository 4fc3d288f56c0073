namespace AppSurface

/-- The side of a node that an edge is on. -/
inductive Direction where
  | outgoing
  | incoming
deriving DecidableEq

namespace Direction

/-- The end of an edge at whose node the edge is on this side. -/
def near : Direction → Nat × Nat → Nat
  | outgoing => Prod.fst
  | incoming => Prod.snd

def far : Direction → Nat × Nat → Nat
  | outgoing => Prod.snd
  | incoming => Prod.fst

end Direction

/-- What is stored at a node, and the other ends of its edges, the newest first. -/
structure Vertex (α : Type) where
  weight : α
  outgoing : List Nat
  incoming : List Nat

namespace Vertex

variable {α : Type}

def neighbours (v : Vertex α) : Direction → List Nat
  | .outgoing => v.outgoing
  | .incoming => v.incoming

def meet (v : Vertex α) (d : Direction) (i : Nat) : Vertex α :=
  match d with
  | .outgoing => { v with outgoing := i :: v.outgoing }
  | .incoming => { v with incoming := i :: v.incoming }

end Vertex

/-- A directed graph. Nodes are named by their index, and edges stand in order of creation. -/
structure AdjacencyGraph (α : Type) where
  vertices : Array (Vertex α)
  edges : List (Nat × Nat)

namespace AdjacencyGraph

variable {α : Type}

def empty : AdjacencyGraph α := ⟨#[], []⟩

def nodeCount (g : AdjacencyGraph α) : Nat := g.vertices.size

def weights (g : AdjacencyGraph α) : List α := g.vertices.toList.map (·.weight)

def weight? (g : AdjacencyGraph α) (i : Nat) : Option α := g.vertices[i]?.map (·.weight)

/-- The other ends of a node's edges on one side, the newest first; none for an index without a
node. -/
def neighbours (g : AdjacencyGraph α) (d : Direction) (i : Nat) : List Nat :=
  match g.vertices[i]? with
  | some v => v.neighbours d
  | none => []

def hasEdge (g : AdjacencyGraph α) (e : Nat × Nat) : Bool :=
  (g.neighbours .outgoing e.1).contains e.2

/-- Adds a node without edges and tells its index. -/
def addNode (g : AdjacencyGraph α) (a : α) : Nat × AdjacencyGraph α :=
  (g.nodeCount, { g with vertices := g.vertices.push ⟨a, [], []⟩ })

/-- Makes the far end of an edge the newest neighbour of the near end. -/
def attach (g : AdjacencyGraph α) (d : Direction) (e : Nat × Nat) : AdjacencyGraph α :=
  { g with vertices := g.vertices.modify (d.near e) fun v => v.meet d (d.far e) }

/-- Adds an edge; `none` if it would join an index that has no node. -/
def addEdge? (g : AdjacencyGraph α) (e : Nat × Nat) : Option (AdjacencyGraph α) :=
  if e.1 < g.nodeCount && e.2 < g.nodeCount then
    some { (g.attach .outgoing e).attach .incoming e with edges := g.edges ++ [e] }
  else none

end AdjacencyGraph

end AppSurface
