import AppSurface.Xml.Fault

namespace AppSurface.Xml

/-- White space between the parts of a document. -/
def isBlank (c : Char) : Bool := c == ' ' || c == '\t' || c == '\r' || c == '\n'

/-- The length of a text in UTF-8 bytes. -/
def byteLength (s : List Char) : Nat := s.foldr (fun c n => c.utf8Size + n) 0

def digitValue? (radix : Nat) (c : Char) : Option Nat :=
  let n :=
    if '0' ≤ c && c ≤ '9' then c.toNat - '0'.toNat
    else if 'a' ≤ c && c ≤ 'z' then c.toNat - 'a'.toNat + 10
    else if 'A' ≤ c && c ≤ 'Z' then c.toNat - 'A'.toNat + 10
    else radix
  if n < radix then some n else none

/-- Reads digits behind a number below 2^32. An overflow is noticed at the digit that causes it,
after that digit was found to be one. -/
def digitsFrom (radix n : Nat) : List Char → Except ReferenceFault Nat
  | [] => .ok n
  | c :: s =>
    match digitValue? radix c with
    | none => .error .badDigit
    | some d =>
      if UInt32.size ≤ radix * n + d then .error .tooLarge else digitsFrom radix (radix * n + d) s

def number (radix : Nat) (s : List Char) : Except ReferenceFault Nat :=
  match s with
  | [] => .error .noDigits
  | '+' :: _ => .error .sign
  | '-' :: _ => .error .sign
  | s => digitsFrom radix 0 s

/-- The character with the number that stands behind the number sign of a reference. -/
def characterOf (s : List Char) : Except ReferenceFault Char := do
  let n ← match s with
    | 'x' :: digits => number 16 digits
    | digits => number 10 digits
  if n = 0 then .error .zero
  else if n.isValidChar then .ok (Char.ofNat n)
  else .error (.noCharacter n)

/-- The character that a reference stands for; its name starts at `first`. -/
def referenceOf (first : Nat) (name : List Char) : Except EntityFault Char :=
  match name with
  | '#' :: s =>
    match characterOf s with
    | .ok c => .ok c
    | .error fault => .error (.character fault)
  | ['l', 't'] => .ok '<'
  | ['g', 't'] => .ok '>'
  | ['a', 'm', 'p'] => .ok '&'
  | ['a', 'p', 'o', 's'] => .ok '\''
  | ['q', 'u', 'o', 't'] => .ok '"'
  | _ => .error (.unknown first (first + byteLength name) (String.ofList name))

/-- Replaces references from a position on in a value of `total` bytes. `name` is where the name of
a reference under way starts, and the part of it that was read, last character first. -/
def unescapeFrom (total : Nat) (name : Option (Nat × List Char)) (position : Nat) :
    List Char → Except EntityFault (List Char)
  | [] =>
    match name with
    | none => .ok []
    | some (first, _) => .error (.unended (first - 1) total)
  | c :: s =>
    let behind := position + c.utf8Size
    match name with
    | none =>
      if c == '&' then unescapeFrom total (some (behind, [])) behind s
      else (c :: ·) <$> unescapeFrom total none behind s
    | some (first, held) =>
      if c == ';' then do
        let d ← referenceOf first held.reverse
        (d :: ·) <$> unescapeFrom total none behind s
      else if c == '&' then .error (.unended (first - 1) total)
      else unescapeFrom total (some (first, c :: held)) behind s

def unescape (value : List Char) : Except EntityFault (List Char) :=
  unescapeFrom (byteLength value) none 0 value

/-- Which part of an attribute is being read. A key is kept with its position. -/
inductive AttributeReading where
  | gap
  | key (first : Nat) (held : List Char)
  | keyGap (first : Nat) (key : List Char)
  | valueGap (key : List Char)
  | value (key : List Char) (quote : Char) (held : List Char)

/-- Where a key stood before. -/
def firstPlace? (seen : List (List Char × Nat)) (key : List Char) : Option Nat :=
  (seen.find? fun k => k.1 == key).map (·.2)

/-- Reads the attributes in the rest of a tag, which starts at `position`; `seen` holds the keys
read so far. A key takes its first character whatever it is. A repeated key is noticed at its
equals sign, and each value is unescaped before the next key is read. -/
def attributesFrom (seen : List (List Char × Nat)) :
    AttributeReading → Nat → List Char → Except Fault (List (String × String))
  | .gap, _, [] => .ok []
  | .key _ _, position, [] => .error (.attributes (.noEquals position))
  | .keyGap _ _, position, [] => .error (.attributes (.noEquals position))
  | .valueGap _, position, [] => .error (.attributes (.noValue position))
  | .value _ quote _, position, [] => .error (.attributes (.unclosed position quote))
  | reading, position, c :: s =>
    let behind := position + c.utf8Size
    match reading with
    | .gap =>
      if isBlank c then attributesFrom seen .gap behind s
      else attributesFrom seen (.key position [c]) behind s
    | .key first held =>
      if c == '=' then
        match firstPlace? seen held.reverse with
        | some previous => .error (.attributes (.repeated first previous))
        | none =>
          attributesFrom ((held.reverse, first) :: seen) (.valueGap held.reverse) behind s
      else if isBlank c then attributesFrom seen (.keyGap first held.reverse) behind s
      else attributesFrom seen (.key first (c :: held)) behind s
    | .keyGap first key =>
      if isBlank c then attributesFrom seen (.keyGap first key) behind s
      else if c == '=' then
        match firstPlace? seen key with
        | some previous => .error (.attributes (.repeated first previous))
        | none => attributesFrom ((key, first) :: seen) (.valueGap key) behind s
      else .error (.attributes (.noEquals position))
    | .valueGap key =>
      if isBlank c then attributesFrom seen (.valueGap key) behind s
      else if c == '"' || c == '\'' then attributesFrom seen (.value key c []) behind s
      else .error (.attributes (.unquoted position))
    | .value key quote held =>
      if c == quote then
        match unescape held.reverse with
        | .error fault => .error (.entity fault)
        | .ok value =>
          ((String.ofList key, String.ofList value) :: ·) <$> attributesFrom seen .gap behind s
      else attributesFrom seen (.value key quote (c :: held)) behind s

end AppSurface.Xml
