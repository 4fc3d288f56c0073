import AppSurface.Unicode.Case

namespace AppSurface

/-- A set of characters. -/
inductive CharSet where
  | empty
  | range (first last : Char)
  | word
  | decimal
  | blank
  | union (s t : CharSet)
  | compl (s : CharSet)
  | folded (s : CharSet)

def CharSet.only (c : Char) : CharSet := .range c c

def CharSet.contains : CharSet → Char → Bool
  | .empty, _ => false
  | .range first last, c => first ≤ c && c ≤ last
  | .word, c => Unicode.isWord c
  | .decimal, c => Unicode.isDecimal c
  | .blank, c => Unicode.isBlank c
  | .union s t, c => s.contains c || t.contains c
  | .compl s, c => !s.contains c
  | .folded s, c => (Unicode.variants c).any fun d => s.contains d

/-- A place in a text: its offset in UTF-8 bytes, the character before it and those after it. -/
structure Cursor where
  offset : Nat
  before : Option Char
  after : List Char

namespace Cursor

def start (s : List Char) : Cursor := ⟨0, none, s⟩

/-- The character at the cursor and the place behind it. -/
def next? : Cursor → Option (Char × Cursor)
  | ⟨_, _, []⟩ => none
  | ⟨offset, _, c :: s⟩ => some (c, ⟨offset + c.utf8Size, some c, s⟩)

/-- The places of a text from an offset to its end. -/
def placesFrom (offset : Nat) (before : Option Char) : List Char → List Cursor
  | [] => [⟨offset, before, []⟩]
  | c :: s => ⟨offset, before, c :: s⟩ :: placesFrom (offset + c.utf8Size) (some c) s

def places (s : List Char) : List Cursor := placesFrom 0 none s

end Cursor

/-- A condition on a place. -/
inductive Anchor where
  | textStart
  | textEnd
  | wordEdge
  | noWordEdge
  | wordStart
  | wordEnd
  /-- A test of the characters in front and behind, where there are any. -/
  | between (test : Option Char → Option Char → Bool)

def Anchor.holds (a : Anchor) (c : Cursor) : Bool :=
  let left := c.before.any Unicode.isWord
  let right := c.after.head?.any Unicode.isWord
  match a with
  | .textStart => c.before.isNone
  | .textEnd => c.after.isEmpty
  | .wordEdge => left != right
  | .noWordEdge => left == right
  | .wordStart => !left && right
  | .wordEnd => left && !right
  | .between test => test c.before c.after.head?

/-- A regular expression. Whatever the syntax that it is read from, its classes are unions of ranges
and its anchors ask for no more than the characters at both sides. -/
inductive Pattern where
  | empty
  | set (s : CharSet)
  | anchor (a : Anchor)
  | seq (p q : Pattern)
  | alt (p q : Pattern)
  /-- At least `least` and at most `most` copies, as many as possible when `greedy`. -/
  | rep (least : Nat) (most : Option Nat) (greedy : Bool) (p : Pattern)

namespace Pattern

def char (c : Char) : Pattern := .set (.only c)

def literal : List Char → Pattern
  | [] => .empty
  | [c] => char c
  | c :: s => .seq (char c) (literal s)

def seqs : List Pattern → Pattern
  | [] => .empty
  | [p] => p
  | p :: ps => .seq p (seqs ps)

def alts : List Pattern → Pattern
  | [] => .empty
  | [p] => p
  | p :: ps => .alt p (alts ps)

def star (p : Pattern) : Pattern := .rep 0 none true p

def plus (p : Pattern) : Pattern := .rep 1 none true p

/-- Runs a matcher `n` times in a row. -/
def times {α : Type} (step : Cursor → (Cursor → Option α) → Option α) :
    Nat → Cursor → (Cursor → Option α) → Option α
  | 0, c, accept => accept c
  | n + 1, c, accept => step c fun d => times step n d accept

/-- Runs a matcher up to `n` times in a row, each time consuming something. -/
def upTo {α : Type} (greedy : Bool) (step : Cursor → (Cursor → Option α) → Option α) :
    Nat → Cursor → (Cursor → Option α) → Option α
  | 0, c, accept => accept c
  | n + 1, c, accept =>
    let further := fun (_ : Unit) =>
      step c fun d => if c.offset < d.offset then upTo greedy step n d accept else none
    if greedy then further () <|> accept c else accept c <|> further ()

/-- Offers the ends of the matches at a cursor to `accept`, most preferred first, until one is
accepted. A repetition without a maximum is bounded by the number of characters left. -/
def run {α : Type} : Pattern → Cursor → (Cursor → Option α) → Option α
  | .empty, c, accept => accept c
  | .set s, c, accept =>
    match c.next? with
    | some (x, d) => if s.contains x then accept d else none
    | none => none
  | .anchor a, c, accept => if a.holds c then accept c else none
  | .seq p q, c, accept => p.run c fun d => q.run d accept
  | .alt p q, c, accept => p.run c accept <|> q.run c accept
  | .rep least most greedy p, c, accept =>
    times (fun c k => p.run c k) least c fun d =>
      let more := match most with
        | some n => n - least
        | none => d.after.length
      upTo greedy (fun c k => p.run c k) more d accept

/-- The leftmost match in a text: where it starts and its preferred end. -/
def find? (p : Pattern) (s : List Char) : Option (Cursor × Cursor) :=
  (Cursor.places s).findSome? fun c => (p.run c some).map fun d => (c, d)

def matchesIn (p : Pattern) (s : List Char) : Bool := (p.find? s).isSome

end Pattern

end AppSurface
