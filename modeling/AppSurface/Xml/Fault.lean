namespace AppSurface.Xml

/-- Markup that is not ended, or not of any kind. -/
inductive MarkupFault where
  | unknown
  | instruction
  | comment
  | doctype
  | cdata
  | tag

def MarkupFault.message : MarkupFault → String
  | .unknown => "unknown or missed symbol in markup"
  | .instruction =>
    "processing instruction or xml declaration not closed: `?>` not found before end of input"
  | .comment => "comment not closed: `-->` not found before end of input"
  | .doctype => "DOCTYPE not closed: `>` not found before end of input"
  | .cdata => "CDATA not closed: `]]>` not found before end of input"
  | .tag => "tag not closed: `>` not found before end of input"

/-- A document type without a name, or an end tag that does not close the innermost element. -/
inductive NestingFault where
  | namelessDoctype
  | strayEnd (found : String)
  | otherEnd (expected found : String)

def NestingFault.message : NestingFault → String
  | .namelessDoctype => "`<!DOCTYPE>` declaration does not contain a name of a document type"
  | .strayEnd found => "close tag `</" ++ found ++ ">` does not match any open tag"
  | .otherEnd expected found =>
    "expected `</" ++ expected ++ ">`, but `</" ++ found ++ ">` was found"

/-- What is wrong with an attribute. Positions are byte offsets in the content of the tag. -/
inductive AttributeFault where
  | noEquals (position : Nat)
  | noValue (position : Nat)
  | unquoted (position : Nat)
  | unclosed (position : Nat) (quote : Char)
  | repeated (position first : Nat)

def AttributeFault.message : AttributeFault → String
  | .noEquals p =>
    "position " ++ toString p ++ ": attribute key must be directly followed by `=` or space"
  | .noValue p => "position " ++ toString p ++ ": `=` must be followed by an attribute value"
  | .unquoted p =>
    "position " ++ toString p ++ ": attribute value must be enclosed in `\"` or `'`"
  | .unclosed p quote =>
    "position " ++ toString p ++ ": missing closing quote `" ++ quote.toString ++
      "` in attribute value"
  | .repeated p first =>
    "position " ++ toString p ++ ": duplicated attribute, previous declaration at position " ++
      toString first

/-- What is wrong with the number of a character reference. -/
inductive ReferenceFault where
  | sign
  | noDigits
  | badDigit
  | tooLarge
  | zero
  | noCharacter (n : Nat)

def ReferenceFault.message : ReferenceFault → String
  | .sign => "unexpected number sign"
  | .noDigits => "cannot parse integer from empty string"
  | .badDigit => "invalid digit found in string"
  | .tooLarge => "number too large to fit in target type"
  | .zero => "0x0 character is not permitted in XML"
  | .noCharacter n => "`" ++ toString n ++ "` is not a valid codepoint"

/-- What is wrong with a reference in an attribute value. Positions are byte offsets in the value.
-/
inductive EntityFault where
  | unended (first last : Nat)
  | unknown (first last : Nat) (name : String)
  | character (fault : ReferenceFault)

def EntityFault.message : EntityFault → String
  | .unended first last =>
    "Error while escaping character at range " ++ toString first ++ ".." ++ toString last ++
      ": Cannot find ';' after '&'"
  | .unknown first last name =>
    "at " ++ toString first ++ ".." ++ toString last ++ ": unrecognized entity `" ++ name ++ "`"
  | .character fault => "invalid character reference: " ++ fault.message

/-- What stops the reading of a document. -/
inductive Fault where
  | markup (fault : MarkupFault)
  | nesting (fault : NestingFault)
  | attributes (fault : AttributeFault)
  | entity (fault : EntityFault)

def Fault.message : Fault → String
  | .markup fault => "syntax error: " ++ fault.message
  | .nesting fault => "ill-formed document: " ++ fault.message
  | .attributes fault => "error while parsing attribute: " ++ fault.message
  | .entity fault => fault.message

/-- A sequence of tags that is not that of one element. -/
inductive ShapeFault where
  | strayEnd
  | textOutside
  | secondRoot
  | unclosed (name : String)
  | noRoot

def ShapeFault.message : ShapeFault → String
  | .strayEnd => "unexpected closing tag"
  | .textOutside => "text outside the root element"
  | .secondRoot => "multiple root elements"
  | .unclosed name => "unclosed element <" ++ name ++ ">"
  | .noRoot => "document has no root element"

end AppSurface.Xml
