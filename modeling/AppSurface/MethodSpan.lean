import AppSurface.Locator

namespace AppSurface.Locator

/-- What breaks off a search that counts in bytes. -/
inductive ByteFault where
  /-- A number is counted down from zero. -/
  | belowZero
  /-- A number is counted up above the number of bytes of the text. -/
  | aboveSize
  /-- A part starts behind its end, or ends behind the end of the text. -/
  | outside
  /-- A part starts or ends within a character. -/
  | withinCharacter
deriving DecidableEq

def countDown : Nat → Except ByteFault Nat
  | 0 => .error .belowZero
  | n + 1 => .ok n

def countUp (size n : Nat) : Except ByteFault Nat :=
  if n < size then .ok (n + 1) else .error .aboveSize

/-- The bytes of a text behind a place. -/
def bytesFrom (source : String) (place : Nat) : Except ByteFault (List UInt8) :=
  if place ≤ source.utf8ByteSize then .ok (source.toUTF8.data.toList.drop place)
  else .error .outside

/-- The part of a text between two places. -/
def cutOut (source : String) (i j : Nat) : Except ByteFault String :=
  if i ≤ j ∧ j ≤ source.utf8ByteSize then
    if h : (⟨i⟩ : String.Pos.Raw).IsValid source ∧ (⟨j⟩ : String.Pos.Raw).IsValid source then
      .ok (source.extract ⟨⟨i⟩, h.1⟩ ⟨⟨j⟩, h.2⟩)
    else .error .withinCharacter
  else .error .outside

def openBrace : UInt8 := '{'.toUInt8

def closeBrace : UInt8 := '}'.toUInt8

/-- The place behind the brace with which no block is open any more. The bytes stand at `place`, and
`depth` blocks are open there. -/
def blockEnd (size place depth : Nat) : List UInt8 → Except ByteFault (Option Nat)
  | [] => .ok none
  | b :: bytes =>
    if b = openBrace then do
      let depth ← countUp size depth
      blockEnd size (place + 1) depth bytes
    else if b = closeBrace then do
      let depth ← countDown depth
      if depth = 0 then
        let stop ← countUp size place
        pure (some stop)
      else blockEnd size (place + 1) depth bytes
    else blockEnd size (place + 1) depth bytes

/-- The places where the text of a method starts and ends. -/
def span (source name : String) : Except ByteFault (Option (Nat × Nat)) :=
  if name.isEmpty then .ok none
  else
    match (header name.toList).find? source.toList with
    | none => .ok none
    | some (first, inside) => do
      let brace ← countDown inside.offset
      let bytes ← bytesFrom source brace
      let stop ← blockEnd source.utf8ByteSize brace 0 bytes
      pure (stop.map fun stop => (first.offset, stop))

/-- The declaration of a method, cut out of the bytes of the source. -/
def cutBody (source name : String) : Except ByteFault (Option String) := do
  match ← span source name with
  | none => pure none
  | some (i, j) => some <$> cutOut source i j

end AppSurface.Locator
