import AppSurface.Pattern.Token

namespace AppSurface.Pattern

/-- The flags in force. -/
structure Flags where
  fold : Bool
  multiLine : Bool
  dotAll : Bool
  swapGreed : Bool

namespace Flags

def initial : Flags := ⟨false, false, false, false⟩

def switch (f : Flags) : Char × Bool → Flags
  | ('i', on) => { f with fold := on }
  | ('m', on) => { f with multiLine := on }
  | ('s', on) => { f with dotAll := on }
  | ('U', on) => { f with swapGreed := on }
  | _ => f

/-- The set of a literal character or class, closed under case variants when case is folded. -/
def cased (f : Flags) (s : CharSet) : CharSet := if f.fold then .folded s else s

/-- What the dot stands for: every character, or every one that ends no line. -/
def dot (f : Flags) : CharSet := .compl (if f.dotAll then .empty else .only '\n')

def caret (f : Flags) : Anchor :=
  if f.multiLine then .between fun before _ => before.all (· == '\n') else .textStart

def dollar (f : Flags) : Anchor :=
  if f.multiLine then .between fun _ after => after.all (· == '\n') else .textEnd

end Flags

/-- A group that is being read: its finished alternatives and the parts of the current one, both
last first, its flags, and whether a part stands there to be repeated. -/
structure Frame where
  flags : Flags
  finished : List Pattern
  parts : List Pattern
  repeatable : Bool

namespace Frame

def fresh (flags : Flags) : Frame := ⟨flags, [], [], false⟩

def push (f : Frame) (p : Pattern) : Frame :=
  { f with parts := p :: f.parts, repeatable := true }

/-- Ends the current alternative. -/
def split (f : Frame) : Frame :=
  { f with finished := seqs f.parts.reverse :: f.finished, parts := [], repeatable := false }

def close (f : Frame) : Pattern := alts f.split.finished.reverse

end Frame

/-- Adds one token to the innermost of the open groups. A closing parenthesis needs an open group
beside the outermost one, and a repetition a part to repeat. -/
def place (open_ : List Frame) (t : Token) : Option (List Frame) :=
  match open_, t with
  | [], _ => none
  | f :: fs, .char c => some (f.push (.set (f.flags.cased (.only c))) :: fs)
  | f :: fs, .set s => some (f.push (.set s) :: fs)
  | f :: fs, .bracket negated s =>
    let members := f.flags.cased s
    some (f.push (.set (if negated then .compl members else members)) :: fs)
  | f :: fs, .dot => some (f.push (.set f.flags.dot) :: fs)
  | f :: fs, .anchor a => some (f.push (.anchor a) :: fs)
  | f :: fs, .caret => some (f.push (.anchor f.flags.caret) :: fs)
  | f :: fs, .dollar => some (f.push (.anchor f.flags.dollar) :: fs)
  | f :: fs, .openGroup switches =>
    some (Frame.fresh (switches.foldl Flags.switch f.flags) :: f :: fs)
  | f :: g :: fs, .closeGroup => some (g.push f.close :: fs)
  | [_], .closeGroup => none
  | f :: fs, .bar => some (f.split :: fs)
  | f :: fs, .rep least most greedy =>
    match f.repeatable, f.parts with
    | true, p :: parts =>
      some ({ f with parts := .rep least most (greedy != f.flags.swapGreed) p :: parts } :: fs)
    | _, _ => none
  | f :: fs, .flags switches =>
    some ({ f with flags := switches.foldl Flags.switch f.flags, repeatable := false } :: fs)

def ofTokens? (ts : List Token) : Option Pattern :=
  match ts.foldlM place [Frame.fresh .initial] with
  | some [f] => some f.close
  | _ => none

/-- The pattern that a text describes. Apart from ill-formed texts it refuses verbose mode, bytes
instead of characters, characters given by their numbers, classes inside of classes and operators on
them, and the classes of Unicode; it sets no limit to the size of a pattern. -/
def ofText? (text : List Char) : Option Pattern := tokens? text >>= ofTokens?

end AppSurface.Pattern

namespace AppSurface

/-- A reader of regular expressions: the pattern of a text, or none if the text is refused. -/
abbrev PatternReader : Type := List Char → Option Pattern

end AppSurface
