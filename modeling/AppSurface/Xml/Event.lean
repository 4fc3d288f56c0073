import AppSurface.Xml.Attribute

namespace AppSurface.Xml

/-- The name and the attributes that a tag gives an element. -/
structure Tag where
  name : String
  attributes : List (String × String)

inductive Event where
  | start (tag : Tag)
  | empty (tag : Tag)
  | finish
  /-- Text or a CDATA section. -/
  | text
  /-- A comment, a processing instruction, the declaration or a document type. -/
  | aside

/-- What was read of a document, and what stopped the reading. -/
structure Events where
  events : List Event
  fault : Option Fault

namespace Events

def none : Events := ⟨[], .none⟩

def stop (fault : Fault) : Events := ⟨[], some fault⟩

def markup (fault : MarkupFault) : Events := stop (.markup fault)

def before (event : Event) (rest : Events) : Events := ⟨event :: rest.events, rest.fault⟩

end Events

/-- What is being read, with the content of the markup read so far, last character first. -/
inductive Reading where
  | gap
  | text
  /-- Right behind the sign that opens markup. -/
  | opened
  | tag (quote : Option Char) (held : List Char)
  | instruction (held : List Char)
  | cdata (held : List Char)
  | comment (held : List Char)
  /-- `inner` signs opened inside the document type are not closed yet. -/
  | doctype (inner : Nat) (held : List Char)

/-- The quote that is open behind a character of a tag. -/
def quoteBehind (quote : Option Char) (c : Char) : Option Char :=
  match quote with
  | none => if c == '"' || c == '\'' then some c else none
  | some q => if c == q then none else some q

/-- The tag with the given content, which is a name up to the first blank, and attributes. -/
def tagOf (content : List Char) : Except Fault Tag :=
  let name := content.takeWhile (!isBlank ·)
  let rest := content.dropWhile (!isBlank ·)
  (⟨String.ofList name, ·⟩) <$> attributesFrom [] .gap (byteLength name) rest

/-- The name in an end tag. Blanks behind it do not count, but a name of blanks alone stays as it
is. -/
def endName (content : List Char) : List Char :=
  if content.all isBlank then content else (content.reverse.dropWhile isBlank).reverse

/-- What a finished tag means while the elements of `names` are open, innermost first: its event
and the elements open behind it. -/
def finishTag (names : List String) (content : List Char) : Except Fault (Event × List String) :=
  match content with
  | '/' :: s =>
    let found := String.ofList (endName s)
    match names with
    | [] => .error (.nesting (.strayEnd found))
    | name :: names =>
      if name == found then .ok (.finish, names)
      else .error (.nesting (.otherEnd name found))
  | content =>
    match content.reverse with
    | '/' :: s => do
      let tag ← tagOf s.reverse
      .ok (.empty tag, names)
    | _ => do
      let tag ← tagOf content
      .ok (.start tag, tag.name :: names)

/-- Whether a document type declaration, read to its end, has a name. -/
def finishDoctype (content : List Char) : Except Fault Event :=
  if (content.take 8).map Char.toUpper != "!DOCTYPE".toList then .error (.markup .doctype)
  else if (content.drop 8).all isBlank then .error (.nesting .namelessDoctype)
  else .ok .aside

/-- Reads on while the elements of `names` are open, innermost first. -/
def eventsFrom (names : List String) : Reading → List Char → Events
  | .gap, [] => .none
  | .text, [] => .before .text .none
  | .opened, [] => .markup .tag
  | .tag _ _, [] => .markup .tag
  | .instruction _, [] => .markup .instruction
  | .cdata _, [] => .markup .cdata
  | .comment _, [] => .markup .comment
  | .doctype _ _, [] => .markup .doctype
  | .gap, c :: s =>
    if isBlank c then eventsFrom names .gap s
    else if c == '<' then eventsFrom names .opened s
    else eventsFrom names .text s
  | .text, c :: s =>
    if c == '<' then .before .text (eventsFrom names .opened s) else eventsFrom names .text s
  | .opened, '!' :: '[' :: s => eventsFrom names (.cdata ['[', '!']) s
  | .opened, '!' :: '-' :: s => eventsFrom names (.comment ['-', '!']) s
  | .opened, '!' :: 'D' :: s => eventsFrom names (.doctype 0 ['D', '!']) s
  | .opened, '!' :: 'd' :: s => eventsFrom names (.doctype 0 ['d', '!']) s
  | .opened, '!' :: _ => .markup .unknown
  | .opened, '?' :: s => eventsFrom names (.instruction ['?']) s
  | .opened, '>' :: s =>
    match finishTag names [] with
    | .error fault => .stop fault
    | .ok (event, names) => .before event (eventsFrom names .gap s)
  | .opened, c :: s => eventsFrom names (.tag (quoteBehind none c) [c]) s
  | .tag quote held, c :: s =>
    if c == '>' && quote.isNone then
      match finishTag names held.reverse with
      | .error fault => .stop fault
      | .ok (event, names) => .before event (eventsFrom names .gap s)
    else eventsFrom names (.tag (quoteBehind quote c) (c :: held)) s
  | .instruction held, c :: s =>
    if c == '>' && held.head? == some '?' then
      if held.length == 1 then .markup .instruction
      else .before .aside (eventsFrom names .gap s)
    else eventsFrom names (.instruction (c :: held)) s
  | .cdata held, c :: s =>
    if c == '>' && [']', ']'].isPrefixOf held then
      if "![CDATA[".toList.isPrefixOf held.reverse then .before .text (eventsFrom names .gap s)
      else .markup .cdata
    else eventsFrom names (.cdata (c :: held)) s
  | .comment held, c :: s =>
    if c == '>' && ['-', '-'].isPrefixOf held && 5 ≤ held.length then
      if "!--".toList.isPrefixOf held.reverse then .before .aside (eventsFrom names .gap s)
      else .markup .comment
    else eventsFrom names (.comment (c :: held)) s
  | .doctype inner held, c :: s =>
    if c == '<' then eventsFrom names (.doctype (inner + 1) (c :: held)) s
    else if c == '>' then
      match inner with
      | 0 =>
        match finishDoctype held.reverse with
        | .error fault => .stop fault
        | .ok event => .before event (eventsFrom names .gap s)
      | n + 1 => eventsFrom names (.doctype n (c :: held)) s
    else eventsFrom names (.doctype inner (c :: held)) s

/-- The events of a document; one byte order mark in front is skipped. -/
def eventsOf (document : List Char) : Events :=
  match document with
  | '\ufeff' :: s => eventsFrom [] .gap s
  | s => eventsFrom [] .gap s

end AppSurface.Xml
