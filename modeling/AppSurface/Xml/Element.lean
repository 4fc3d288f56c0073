import AppSurface.Xml.Event

namespace AppSurface.Xml

inductive Element where
  | node (name : String) (attributes : List (String × String)) (children : List Element)

namespace Element

def name : Element → String
  | .node name _ _ => name

def attributes : Element → List (String × String)
  | .node _ attributes _ => attributes

def children : Element → List Element
  | .node _ _ children => children

/-- The value of an attribute, empty when there is none. -/
def value (e : Element) (key : String) : String :=
  match e.attributes.find? fun a => a.1 == key with
  | some (_, value) => value
  | none => ""

mutual

/-- The element and everything in it, in the order of start tags. -/
def preorder : Element → List Element
  | .node name attributes children => .node name attributes children :: preorderAll children

def preorderAll : List Element → List Element
  | [] => []
  | e :: es => preorder e ++ preorderAll es

end

/-- The elements of a name among an element and everything in it. -/
def named (e : Element) (name : String) : List Element := e.preorder.filter (·.name == name)

/-- The elements of a name inside an element. -/
def within (e : Element) (name : String) : List Element :=
  (preorderAll e.children).filter (·.name == name)

/-- An element whose end was not read yet, with its finished children, last first. -/
structure Open where
  tag : Tag
  children : List Element

/-- The open elements, innermost first, and the root once it is finished. -/
structure Progress where
  path : List Open
  root : Option Element

def Progress.start : Progress := ⟨[], none⟩

/-- Adds a finished element to the innermost open one, or makes it the root. -/
def Progress.attach (p : Progress) (e : Element) : Except ShapeFault Progress :=
  match p.path, p.root with
  | o :: path, root => .ok ⟨{ o with children := e :: o.children } :: path, root⟩
  | [], none => .ok ⟨[], some e⟩
  | [], some _ => .error .secondRoot

def Progress.step (p : Progress) (event : Event) : Except ShapeFault Progress :=
  match event with
  | .start tag => .ok ⟨⟨tag, []⟩ :: p.path, p.root⟩
  | .empty tag => p.attach (.node tag.name tag.attributes [])
  | .finish =>
    match p.path with
    | [] => .error .strayEnd
    | o :: path =>
      Progress.attach ⟨path, p.root⟩ (.node o.tag.name o.tag.attributes o.children.reverse)
  | .text => if p.path.isEmpty then .error .textOutside else .ok p
  | .aside => .ok p

/-- The root, if all elements are closed. -/
def Progress.finish (p : Progress) : Except ShapeFault Element :=
  match p.path, p.root with
  | o :: _, _ => .error (.unclosed o.tag.name)
  | [], some e => .ok e
  | [], none => .error .noRoot

/-- The element whose tags a sequence of events holds. -/
def ofEvents (events : List Event) : Except ShapeFault Element := do
  let p ← events.foldlM Progress.step Progress.start
  p.finish

end Element

/-- Why a document has no element tree. -/
inductive DocumentFault where
  | reading (fault : Fault)
  | shape (fault : ShapeFault)

def DocumentFault.message : DocumentFault → String
  | .reading fault => fault.message
  | .shape fault => fault.message

/-- The element tree of a document. The first fault counts: one in the shape of the tags that were
read comes before the fault that stopped the reading. -/
def parse (document : String) : Except DocumentFault Element :=
  let read := eventsOf document.toList
  match read.events.foldlM Element.Progress.step Element.Progress.start, read.fault with
  | .error fault, _ => .error (.shape fault)
  | .ok _, some fault => .error (.reading fault)
  | .ok p, none =>
    match p.finish with
    | .error fault => .error (.shape fault)
    | .ok e => .ok e

end AppSurface.Xml
