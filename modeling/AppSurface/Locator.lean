import AppSurface.Pattern.Basic

namespace AppSurface.Locator

/-- The modifiers, one of which must stand before the name of a declared method. -/
def modifiers : List String :=
  ["public", "private", "protected", "static", "final", "native", "synchronized", "abstract",
    "transient"]

def notOpenBrace : Pattern := .set (.compl (.only '{'))

/-- The head of a method's declaration, from a modifier through the opening brace. -/
def header (name : List Char) : Pattern :=
  .seqs [.plus (.alts (modifiers.map fun m => .literal m.toList)), .plus notOpenBrace,
    .literal name, .star (.set .blank), .char '(', .star notOpenBrace, .char '{']

/-- What follows the brace that closes a block, of which `inner` blocks inside it are still open. -/
def afterBlock (inner : Nat) : List Char → Option (List Char)
  | [] => none
  | '{' :: s => afterBlock (inner + 1) s
  | '}' :: s =>
    match inner with
    | 0 => some s
    | n + 1 => afterBlock n s
  | _ :: s => afterBlock inner s

/-- The declaration of a method, from the leftmost match of its header through the brace that
closes the block opened there. A block that is never closed is not searched past. -/
def body? (source name : List Char) : Option (List Char) :=
  if name.isEmpty then none
  else do
    let (first, inside) ← (header name).find? source
    let rest ← afterBlock 0 inside.after
    some (first.after.take (first.after.length - rest.length))

end AppSurface.Locator
