import AppSurface.Locator
import AppSurface.Pattern.Reading
import AppSurface.Text.Search

namespace AppSurface

/-- A call of any method whose whole name matches `method` is also recognised by `pattern`. -/
structure Confirmer where
  method : String
  pattern : String
deriving DecidableEq

/-- The confirming rules of a fresh configuration. -/
def Confirmer.builtIn : List Confirmer :=
  [⟨"loadUrl", "(?i)\\bwebView\\w*\\.loadUrl\\s*\\("⟩]

/-- A confirming rule whose patterns are read. -/
structure CallRule where
  method : Pattern
  evidence : Pattern

/-- The method pattern is anchored at both ends by text placed around it. -/
def Confirmer.rule? (c : Confirmer) (read : PatternReader := Pattern.ofText?) :
    Option CallRule := do
  let method ← read ("^(?:".toList ++ c.method.toList ++ ")$".toList)
  let evidence ← read c.pattern.toList
  some ⟨method, evidence⟩

/-- The confirming rules in force. -/
structure CallDetector where
  rules : List CallRule

/-- The detector of a table of confirming rules, or the first rule that cannot be read. -/
def CallDetector.ofConfirmers (table : List Confirmer)
    (read : PatternReader := Pattern.ofText?) : Except Confirmer CallDetector :=
  match table with
  | [] => .ok ⟨[]⟩
  | c :: cs =>
    match c.rule? read with
    | none => .error c
    | some rule => do
      let d ← ofConfirmers cs read
      .ok ⟨rule :: d.rules⟩

/-- What counts as a call of one method. -/
structure CallMatcher where
  method : String
  evidence : List Pattern

/-- The empty name has no matcher. -/
def CallDetector.matcher? (d : CallDetector) (method : String) : Option CallMatcher :=
  if method.isEmpty then none
  else
    some ⟨method,
      (d.rules.filter fun r => r.method.matchesIn method.toList).map fun r => r.evidence⟩

/-- A call on a receiver: a word, a dot, the name, and an opening parenthesis behind blanks. -/
def qualifiedCall (method : List Char) : Pattern :=
  .seqs [.anchor .wordEdge, .plus (.set .word), .char '.', .literal method, .star (.set .blank),
    .char '(']

namespace CallMatcher

/-- Whether a text contains a call of the method. -/
def accepts (m : CallMatcher) (body : List Char) : Bool :=
  Text.occursIn (m.method.toList ++ ['(']) body ||
    (qualifiedCall m.method.toList).matchesIn body ||
    m.evidence.any fun p => p.matchesIn body

/-- Whether the method `caller`, as located in a source, contains a call. -/
def calledBy (m : CallMatcher) (source : List Char) (caller : String) : Bool :=
  match Locator.body? source caller.toList with
  | some body => m.accepts body
  | none => false

end CallMatcher

/-- The part of a signature behind its last dot. -/
def methodPart (signature : String) : String :=
  String.ofList (signature.toList.reverse.takeWhile (· != '.')).reverse

/-- Whether `caller`, as located in `source`, calls the method that a signature names. -/
def CallDetector.hasCall (d : CallDetector) (source caller target : String) : Bool :=
  match d.matcher? (methodPart target) with
  | some m => m.calledBy source.toList caller
  | none => false

end AppSurface
