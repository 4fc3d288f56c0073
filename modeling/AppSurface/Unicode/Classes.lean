import AppSurface.Unicode.DecimalRanges
import AppSurface.Unicode.WordRanges

namespace AppSurface.Unicode

/-- Whether a code point lies in one of the closed ranges. -/
def covers (ranges : List (Nat × Nat)) (n : Nat) : Bool :=
  ranges.any fun r => r.1 ≤ n && n ≤ r.2

/-- The property White_Space. -/
def isBlank (c : Char) : Bool :=
  covers [(0x9, 0xd), (0x20, 0x20), (0x85, 0x85), (0xa0, 0xa0), (0x1680, 0x1680),
    (0x2000, 0x200a), (0x2028, 0x2029), (0x202f, 0x202f), (0x205f, 0x205f), (0x3000, 0x3000)]
    c.toNat

/-- The general category Decimal_Number; below U+0080 it is the ten ASCII digits. -/
def isDecimal (c : Char) : Bool :=
  if c.toNat < 0x80 then c.isDigit else covers decimalRanges c.toNat

/-- Letters, marks, decimal digits, connectors and joiners; below U+0080 these are the ASCII
letters and digits and the underscore. -/
def isWord (c : Char) : Bool :=
  if c.toNat < 0x80 then c.isAlphanum || c == '_' else covers wordRanges c.toNat

end AppSurface.Unicode
