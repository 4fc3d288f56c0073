import AppSurface.Unicode.Case

namespace AppSurface.Text

/-- Whether `needle` occurs in a text as a contiguous part. -/
def occursIn (needle : List Char) : List Char → Bool
  | [] => needle.isEmpty
  | c :: s => needle.isPrefixOf (c :: s) || occursIn needle s

theorem occursIn_iff {needle s : List Char} : occursIn needle s = true ↔ needle <:+: s := by
  induction s with
  | nil => simp [occursIn]
  | cons c s ih => simp [occursIn, ih, List.infix_cons_iff]

/-- Whether `sub` occurs literally in `s`. -/
def contains (s sub : String) : Bool := occursIn sub.toList s.toList

theorem contains_iff {s sub : String} : contains s sub = true ↔ sub.toList <:+: s.toList :=
  occursIn_iff

/-- Whether the lower-cased `sub` occurs in the lower-cased `s`. -/
def containsIgnoringCase (s sub : String) : Bool :=
  occursIn (Unicode.lower sub.toList) (Unicode.lower s.toList)

theorem containsIgnoringCase_iff {s sub : String} : containsIgnoringCase s sub = true ↔
    Unicode.lower sub.toList <:+: Unicode.lower s.toList :=
  occursIn_iff

/-- Whether `s` ends with `tail`. -/
def endsWith (s tail : String) : Bool := tail.toList.isSuffixOf s.toList

theorem endsWith_iff {s tail : String} : endsWith s tail = true ↔ tail.toList <:+ s.toList :=
  List.isSuffixOf_iff_suffix

/-- Whether `s` starts with `head`. -/
def startsWith (s head : String) : Bool := head.toList.isPrefixOf s.toList

end AppSurface.Text
