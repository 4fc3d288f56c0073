import AppSurface.Pattern.Basic

namespace AppSurface.Pattern

inductive Token where
  /-- A literal character. -/
  | char (c : Char)
  /-- A predefined set such as `\w`. -/
  | set (s : CharSet)
  | dot
  /-- A bracketed class. -/
  | bracket (negated : Bool) (s : CharSet)
  | anchor (a : Anchor)
  /-- The start of the text, or of a line of it. -/
  | caret
  /-- The end of the text, or of a line of it. -/
  | dollar
  /-- The start of a group that some flags are switched for. -/
  | openGroup (switches : List (Char × Bool))
  | closeGroup
  | bar
  | rep (least : Nat) (most : Option Nat) (greedy : Bool)
  /-- Switches flags on or off up to the end of the enclosing group. -/
  | flags (switches : List (Char × Bool))

/-- Characters that stand for themselves after a backslash: ASCII, neither letter nor digit, nor
one of the angle brackets. -/
def escapable (c : Char) : Bool :=
  c.toNat < 0x80 && !c.isAlphanum && c != '<' && c != '>'

/-- The character that a backslash and `c` stand for. -/
def escapedChar? (c : Char) : Option Char :=
  match c with
  | 'n' => some '\n'
  | 't' => some '\t'
  | 'r' => some '\r'
  | 'f' => some '\x0c'
  | 'v' => some '\x0b'
  | 'a' => some '\x07'
  | _ => if escapable c then some c else none

/-- The predefined set that a backslash and `c` stand for. -/
def escapedSet? (c : Char) : Option CharSet :=
  match c with
  | 'w' => some .word
  | 'W' => some (.compl .word)
  | 'd' => some .decimal
  | 'D' => some (.compl .decimal)
  | 's' => some .blank
  | 'S' => some (.compl .blank)
  | _ => none

def escapedAnchor? (c : Char) : Option Anchor :=
  match c with
  | 'b' => some .wordEdge
  | 'B' => some .noWordEdge
  | 'A' => some .textStart
  | 'z' => some .textEnd
  | '<' => some .wordStart
  | '>' => some .wordEnd
  | _ => none

/-- What a backslash and `c` stand for outside a class. -/
def escape? (c : Char) : Option Token :=
  match escapedChar? c, escapedSet? c, escapedAnchor? c with
  | some d, _, _ => some (.char d)
  | none, some s, _ => some (.set s)
  | none, none, some a => some (.anchor a)
  | none, none, none => none

/-- A unit of a class: a character or a predefined set. A bare hyphen is kept apart because it can
form a range. -/
inductive ClassItem where
  | char (c : Char)
  | set (s : CharSet)
  | hyphen

/-- The units of a class. The operators `&&` and `~~` on classes are refused. -/
def classItems : List Char → Option (List ClassItem)
  | [] => some []
  | '\\' :: c :: s => do
    let items ← classItems s
    match escapedChar? c, escapedSet? c with
    | some d, _ => some (.char d :: items)
    | none, some t => some (.set t :: items)
    | none, none => none
  | '\\' :: [] => none
  | '&' :: '&' :: _ => none
  | '~' :: '~' :: _ => none
  | '-' :: s => (.hyphen :: ·) <$> classItems s
  | c :: s => (.char c :: ·) <$> classItems s

/-- The union of a class's units. A hyphen between two characters forms a range, which must not be
reversed; the operator `--` is refused; any other hyphen stands for itself. -/
def classSet : List ClassItem → Option CharSet
  | [] => some .empty
  | .char a :: .hyphen :: .char b :: items =>
    if a ≤ b then (.union (.range a b) ·) <$> classSet items else none
  | .char _ :: .hyphen :: .set _ :: _ => none
  | .set _ :: .hyphen :: .char _ :: _ => none
  | .set _ :: .hyphen :: .set _ :: _ => none
  | .hyphen :: .hyphen :: _ => none
  | .hyphen :: items => (.union (.only '-') ·) <$> classSet items
  | .char a :: items => (.union (.only a) ·) <$> classSet items
  | .set s :: items => (.union s ·) <$> classSet items

/-- The set that the text between the brackets describes: hyphens in front stand for themselves. -/
def leadingHyphens : List ClassItem → Option CharSet
  | .hyphen :: items => (.union (.only '-') ·) <$> leadingHyphens items
  | items => classSet items

/-- The members of a class, without the sign of its negation. -/
def members? : List Char → Option CharSet
  | ']' :: s => do
    let items ← classItems s
    (.union (.only ']') ·) <$> classSet items
  | s => classItems s >>= leadingHyphens

/-- The text between the brackets of a class. -/
def bracket? : List Char → Option Token
  | '^' :: s => (.bracket true ·) <$> members? s
  | s => (.bracket false ·) <$> members? s

/-- A decimal number below 2^32 between blanks. -/
def count? (text : List Char) : Option Nat :=
  let digits := ((text.dropWhile Unicode.isBlank).reverse.dropWhile Unicode.isBlank).reverse
  if digits.isEmpty || !digits.all Char.isDigit then none
  else
    let n := digits.foldl (fun n d => 10 * n + (d.toNat - '0'.toNat)) 0
    if n < UInt32.size then some n else none

/-- The text between the braces of a repetition: `n`, `n,` or `n,m` with `n` at most `m`. -/
def counts? (text : List Char) : Option (Nat × Option Nat) :=
  match text.span (· != ',') with
  | (least, []) => do
    let n ← count? least
    some (n, some n)
  | (least, _ :: most) => do
    let n ← count? least
    if most.all Unicode.isBlank then some (n, none)
    else
      let m ← count? most
      if n ≤ m then some (n, some m) else none

/-- The flags that can be switched: case folding, lines as texts, a dot for every character, and
the other preference of repetitions. -/
def flagLetters : List Char := ['i', 'm', 's', 'U']

/-- The flags at the end of a group's head: those switched on, then behind a hyphen those switched
off, each one once. -/
def switches? (text : List Char) : Option (List (Char × Bool)) :=
  let (on, rest) := text.span (· != '-')
  let off := rest.drop 1
  let switches := on.map (·, true) ++ off.map (·, false)
  let letters := switches.map (·.1)
  if rest == ['-'] || !letters.all flagLetters.contains || letters.eraseDups != letters then none
  else some switches

/-- A group name: a letter or underscore, then letters, digits, underscores, dots and brackets. -/
def isGroupName : List Char → Bool
  | [] => false
  | c :: s =>
    (Unicode.isWord c && !Unicode.isDecimal c) &&
      s.all fun d => Unicode.isWord d || d == '.' || d == '[' || d == ']'

/-- The head of a group behind `(?`, up to and including its `:`, `)` or `>`. -/
def groupHead? (names : List (List Char)) (head : List Char) :
    Option (Token × List (List Char)) :=
  match head.reverse with
  | ':' :: flags => (fun switches => (.openGroup switches, names)) <$> switches? flags.reverse
  | [')'] => none
  | ')' :: flags => (fun switches => (.flags switches, names)) <$> switches? flags.reverse
  | '>' :: _ =>
    let name? := match head.dropLast with
      | 'P' :: '<' :: name => some name
      | '<' :: name => some name
      | _ => none
    match name? with
    | some name =>
      if isGroupName name && !names.contains name then some (.openGroup [], name :: names)
      else none
    | none => none
  | _ => none

/-- What part of a pattern is being read: plain text, or a class, count or group head with the
part of it already read, last character first. -/
inductive Reading where
  | plain
  | bracket (held : List Char)
  | count (held : List Char)
  | head (held : List Char)

/-- The tokens of a pattern. `names` are the group names seen so far, which must not repeat. A
closing bracket that is the first member of a class stands for itself. -/
def tokensFrom (names : List (List Char)) : Reading → List Char → Option (List Token)
  | .plain, [] => some []
  | .plain, '\\' :: c :: s => do
    let t ← escape? c
    (t :: ·) <$> tokensFrom names .plain s
  | .plain, '\\' :: [] => none
  | .plain, '[' :: '^' :: ']' :: s => tokensFrom names (.bracket [']', '^']) s
  | .plain, '[' :: '^' :: s => tokensFrom names (.bracket ['^']) s
  | .plain, '[' :: ']' :: s => tokensFrom names (.bracket [']']) s
  | .plain, '[' :: s => tokensFrom names (.bracket []) s
  | .plain, '\x7b' :: s => tokensFrom names (.count []) s
  | .plain, '(' :: '?' :: s => tokensFrom names (.head []) s
  | .plain, '(' :: s => (.openGroup [] :: ·) <$> tokensFrom names .plain s
  | .plain, ')' :: s => (.closeGroup :: ·) <$> tokensFrom names .plain s
  | .plain, '|' :: s => (.bar :: ·) <$> tokensFrom names .plain s
  | .plain, '*' :: '?' :: s => (.rep 0 none false :: ·) <$> tokensFrom names .plain s
  | .plain, '*' :: s => (.rep 0 none true :: ·) <$> tokensFrom names .plain s
  | .plain, '+' :: '?' :: s => (.rep 1 none false :: ·) <$> tokensFrom names .plain s
  | .plain, '+' :: s => (.rep 1 none true :: ·) <$> tokensFrom names .plain s
  | .plain, '?' :: '?' :: s => (.rep 0 (some 1) false :: ·) <$> tokensFrom names .plain s
  | .plain, '?' :: s => (.rep 0 (some 1) true :: ·) <$> tokensFrom names .plain s
  | .plain, '^' :: s => (.caret :: ·) <$> tokensFrom names .plain s
  | .plain, '$' :: s => (.dollar :: ·) <$> tokensFrom names .plain s
  | .plain, '.' :: s => (.dot :: ·) <$> tokensFrom names .plain s
  | .plain, c :: s => (.char c :: ·) <$> tokensFrom names .plain s
  | .bracket held, '\\' :: c :: s => tokensFrom names (.bracket (c :: '\\' :: held)) s
  | .bracket held, ']' :: s => do
    let t ← bracket? held.reverse
    (t :: ·) <$> tokensFrom names .plain s
  | .bracket _, '[' :: _ => none
  | .bracket held, c :: s => tokensFrom names (.bracket (c :: held)) s
  | .bracket _, [] => none
  | .count held, '\x7d' :: '?' :: s => do
    let (least, most) ← counts? held.reverse
    (.rep least most false :: ·) <$> tokensFrom names .plain s
  | .count held, '\x7d' :: s => do
    let (least, most) ← counts? held.reverse
    (.rep least most true :: ·) <$> tokensFrom names .plain s
  | .count held, c :: s => tokensFrom names (.count (c :: held)) s
  | .count _, [] => none
  | .head held, c :: s =>
    if c == ':' || c == ')' || c == '>' then do
      let (t, seen) ← groupHead? names (c :: held).reverse
      (t :: ·) <$> tokensFrom seen .plain s
    else tokensFrom names (.head (c :: held)) s
  | .head _, [] => none

def tokens? (text : List Char) : Option (List Token) := tokensFrom [] .plain text

end AppSurface.Pattern
