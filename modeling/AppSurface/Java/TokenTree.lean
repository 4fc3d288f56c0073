import AppSurface.Java.Token

namespace AppSurface.Java

inductive Bracket where
  | round
  | square
  | curly
deriving DecidableEq

inductive TokenTree where
  | leaf (t : Token)
  /-- What stands between the tokens `first` and `last`, which are brackets. -/
  | group (bracket : Bracket) (first last : Token) (inner : List TokenTree)

namespace TokenTree

def first : TokenTree → Token
  | .leaf t => t
  | .group _ first _ _ => first

def last : TokenTree → Token
  | .leaf t => t
  | .group _ _ last _ => last

/-- A bracket that is not closed yet, and the finished trees behind it, last first. -/
structure Open where
  bracket : Bracket
  first : Token
  trees : List TokenTree

/-- The open brackets, innermost first, and the finished trees outside of all, last first. -/
structure Progress where
  path : List Open
  outside : List TokenTree

def Progress.add (p : Progress) (t : TokenTree) : Progress :=
  match p.path with
  | [] => { p with outside := t :: p.outside }
  | o :: path => { p with path := { o with trees := t :: o.trees } :: path }

/-- Closes the innermost bracket with a token. -/
def Progress.close (p : Progress) (last : Token) : Progress :=
  match p.path with
  | [] => p.add (.leaf last)
  | o :: path => Progress.add { p with path := path } (.group o.bracket o.first last o.trees.reverse)

def openingBracket? (t : Token) : Option Bracket :=
  if t.isMark '(' then some .round
  else if t.isMark '[' then some .square
  else if t.isMark '{' then some .curly
  else none

def isClosing (t : Token) : Bool := t.isMark ')' || t.isMark ']' || t.isMark '}'

def Progress.step (p : Progress) (t : Token) : Progress :=
  match openingBracket? t with
  | some b => { p with path := ⟨b, t, []⟩ :: p.path }
  | none => if isClosing t then p.close t else p.add (.leaf t)

/-- Groups tokens by brackets. A bracket that is never closed is closed at the end of the text. -/
def ofTokens (ts : List Token) : List TokenTree :=
  let read := ts.foldl Progress.step ⟨[], []⟩
  match ts.getLast? with
  | some last => (read.path.foldl (fun (p : Progress) _ => p.close last) read).outside.reverse
  | none => []

end TokenTree

end AppSurface.Java
