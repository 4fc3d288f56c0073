namespace AppSurface.Java

/-- A node of the syntax tree of a text, with the field of its parent that it stands in and with its
place, counted in characters. -/
structure SyntaxNode where
  kind : String
  field : Option String
  first : Nat
  stop : Nat
  children : List SyntaxNode

namespace SyntaxNode

/-- The first child that stands in a field. -/
def child? (n : SyntaxNode) (field : String) : Option SyntaxNode :=
  n.children.find? fun c => c.field == some field

def text (source : List Char) (n : SyntaxNode) : List Char :=
  (source.drop n.first).take (n.stop - n.first)

def name? (source : List Char) (n : SyntaxNode) : Option String :=
  (n.child? "name").map fun c => String.ofList (c.text source)

end SyntaxNode

end AppSurface.Java
