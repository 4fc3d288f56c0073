import AppSurface.Unicode.Classes

namespace AppSurface.Java

inductive TokenKind where
  /-- A name, a keyword or a number. -/
  | word
  /-- A string, a text block or a character. -/
  | literal
  | mark
deriving DecidableEq

/-- A token with its place, counted in characters. The text of a literal is not kept. -/
structure Token where
  kind : TokenKind
  text : List Char
  first : Nat
  stop : Nat

def Token.isWord (t : Token) (w : String) : Bool := t.kind == .word && t.text == w.toList

def Token.isMark (t : Token) (c : Char) : Bool := t.kind == .mark && t.text == [c]

def isWordChar (c : Char) : Bool :=
  c.isAlphanum || c == '_' || c == '$' ||
    (0x80 ≤ c.toNat && !Unicode.isBlank c && c != '\ufeff')

/-- What is being read: nothing yet, a token with its start, or a comment. -/
inductive Lexing where
  | code
  /-- The next `n` characters belong to what was read before. -/
  | skip (n : Nat)
  | word (first : Nat) (held : List Char)
  | lineComment
  /-- A block comment of whose opening mark the star is still ahead. -/
  | commentOpening
  | blockComment
  | quoted (first : Nat) (quote : Char) (escaped : Bool)
  /-- A text block, of whose opening quotes `opening` are still ahead. -/
  | textBlock (first : Nat) (opening : Nat) (escaped : Bool)

/-- What a character outside of words, comments and literals begins; `s` is the text behind it. -/
def begin (position : Nat) (c : Char) (s : List Char) : Option Token × Lexing :=
  if isWordChar c then (none, .word position [c])
  else if Unicode.isBlank c || c.toNat < 0x20 || c == '\ufeff' then (none, .code)
  else
    match c, s with
    | '/', '/' :: _ => (none, .lineComment)
    | '/', '*' :: _ => (none, .commentOpening)
    | '"', '"' :: '"' :: _ => (none, .textBlock position 2 false)
    | '"', _ => (none, .quoted position '"' false)
    | '\'', _ => (none, .quoted position '\'' false)
    | '=', '=' :: _ => (some ⟨.mark, [c, '='], position, position + 2⟩, .skip 1)
    | '<', '=' :: _ => (some ⟨.mark, [c, '='], position, position + 2⟩, .skip 1)
    | '>', '=' :: _ => (some ⟨.mark, [c, '='], position, position + 2⟩, .skip 1)
    | '!', '=' :: _ => (some ⟨.mark, [c, '='], position, position + 2⟩, .skip 1)
    | _, _ => (some ⟨.mark, [c], position, position + 1⟩, .code)

/-- One character further: the tokens that are finished by it, and what is being read then. -/
def Lexing.step (l : Lexing) (position : Nat) (c : Char) (s : List Char) : List Token × Lexing :=
  match l with
  | .code =>
    let (t, l) := begin position c s
    (t.toList, l)
  | .skip 0 =>
    let (t, l) := begin position c s
    (t.toList, l)
  | .skip 1 => ([], .code)
  | .skip (n + 1) => ([], .skip n)
  | .word first held =>
    if isWordChar c then ([], .word first (c :: held))
    else
      let (t, l) := begin position c s
      (⟨.word, held.reverse, first, position⟩ :: t.toList, l)
  | .lineComment => ([], if c == '\n' then .code else .lineComment)
  | .commentOpening => ([], .blockComment)
  | .blockComment =>
    match c, s with
    | '*', '/' :: _ => ([], .skip 1)
    | _, _ => ([], .blockComment)
  | .quoted first quote escaped =>
    if escaped then ([], .quoted first quote false)
    else if c == '\\' then ([], .quoted first quote true)
    else if c == quote then ([⟨.literal, [], first, position + 1⟩], .code)
    else ([], .quoted first quote false)
  | .textBlock first (n + 1) _ => ([], .textBlock first n false)
  | .textBlock first 0 escaped =>
    if escaped then ([], .textBlock first 0 false)
    else
      match c, s with
      | '\\', _ => ([], .textBlock first 0 true)
      | '"', '"' :: '"' :: _ => ([⟨.literal, [], first, position + 3⟩], .skip 2)
      | _, _ => ([], .textBlock first 0 false)

/-- A literal that goes on behind an expression embedded in it, in which `curlies` brackets are
open. -/
structure Template where
  rest : Lexing
  curlies : Nat

/-- What is being read, and the literals around it, innermost first. -/
structure Scan where
  state : Lexing
  inside : List Template

/-- Whether an expression starts here that is embedded in what is being read. -/
def Lexing.embeds (l : Lexing) (c : Char) (s : List Char) : Bool :=
  match l, c, s with
  | .quoted _ '"' false, '\\', '{' :: _ => true
  | .textBlock _ 0 false, '\\', '{' :: _ => true
  | _, _, _ => false

/-- Reads on behind a token of the embedded expression, of which the bracket that is not opened in
it is the end. -/
def Template.follow (t : Template) (outer : List Template) (l : Lexing) : Option Token → Scan
  | none => ⟨l, t :: outer⟩
  | some u =>
    if u.isMark '{' then ⟨l, { t with curlies := t.curlies + 1 } :: outer⟩
    else if u.isMark '}' then
      match t.curlies with
      | 0 => ⟨t.rest, outer⟩
      | n + 1 => ⟨l, { t with curlies := n } :: outer⟩
    else ⟨l, t :: outer⟩

/-- One character further. The tokens of an embedded expression are a part of the literal around
it. -/
def Scan.step (r : Scan) (position : Nat) (c : Char) (s : List Char) : List Token × Scan :=
  if r.state.embeds c s then ([], ⟨.skip 1, ⟨r.state, 0⟩ :: r.inside⟩)
  else
    let (ts, l) := r.state.step position c s
    match r.inside with
    | [] => (ts, ⟨l, []⟩)
    | t :: outer => ([], t.follow outer l ts.getLast?)

/-- Adds the tokens of a text to those found before it, last first. -/
def tokensFrom (r : Scan) (position : Nat) (found : List Token) : List Char → List Token
  | [] =>
    match r with
    | ⟨.word first held, []⟩ => ⟨.word, held.reverse, first, position⟩ :: found
    | _ => found
  | c :: s =>
    let (ts, r) := r.step position c s
    tokensFrom r (position + 1) (ts.reverse ++ found) s

def tokens (s : List Char) : List Token := (tokensFrom ⟨.code, []⟩ 0 [] s).reverse

end AppSurface.Java
