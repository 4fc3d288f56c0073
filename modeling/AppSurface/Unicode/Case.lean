import AppSurface.Unicode.CaseRuns
import AppSurface.Unicode.CasedRanges
import AppSurface.Unicode.Classes

namespace AppSurface.Unicode

def CaseRun.covers (r : CaseRun) (n : Nat) : Bool :=
  r.first ≤ n && n ≤ r.last && (n - r.first) % r.step == 0

def CaseRun.move (r : CaseRun) (n : Nat) : Nat := (n + r.shift).toNat

/-- The code point of this run that is moved to `n`. -/
def CaseRun.source? (r : CaseRun) (n : Nat) : Option Nat :=
  let m := (n - r.shift).toNat
  if r.covers m then some m else none

def mapCase (runs : List CaseRun) (c : Char) : Char :=
  match runs.find? (·.covers c.toNat) with
  | some r => Char.ofNat (r.move c.toNat)
  | none => c

/-- Simple case folding. -/
def fold (c : Char) : Char := mapCase foldRuns c

/-- The characters that fold to the same character as `c`. -/
def variants (c : Char) : List Char :=
  let folded := fold c
  folded :: foldRuns.filterMap fun r => (r.source? folded.toNat).map Char.ofNat

def isCased (c : Char) : Bool := covers casedRanges c.toNat

def isCaseIgnorable (c : Char) : Bool := covers caseIgnorableRanges c.toNat

/-- Whether the first character that is not case-ignorable is a cased one. -/
def casedNext (s : List Char) : Bool :=
  match s.dropWhile isCaseIgnorable with
  | [] => false
  | c :: _ => isCased c

/-- Lower-cases `s`, which stands after the characters of `before` (nearest first). A capital sigma
that ends a word becomes a final sigma, and the dotted capital I becomes two characters. -/
def lowerAfter (before : List Char) : List Char → List Char
  | [] => []
  | 'Σ' :: s =>
    (if casedNext before && !casedNext s then 'ς' else 'σ') :: lowerAfter ('Σ' :: before) s
  | 'İ' :: s => 'i' :: '\u0307' :: lowerAfter ('İ' :: before) s
  | c :: s => mapCase lowerRuns c :: lowerAfter (c :: before) s

def lower (s : List Char) : List Char := lowerAfter [] s

end AppSurface.Unicode
