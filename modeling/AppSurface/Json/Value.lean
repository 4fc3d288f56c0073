namespace AppSurface.Json

inductive Value where
  | null
  | bool (b : Bool)
  | num (n : Nat)
  | str (s : String)
  | arr (items : List Value)
  | obj (members : List (String × Value))
deriving Inhabited

namespace Value

def strs (ss : List String) : Value := .arr (ss.map .str)

/-- A text, or `null` when there is none. -/
def ofOption : Option String → Value
  | none => .null
  | some s => .str s

end Value

def hexDigit (n : Nat) : Char :=
  if n < 10 then Char.ofNat ('0'.toNat + n) else Char.ofNat ('a'.toNat + n - 10)

/-- A character as it stands in a written string: quotes, backslashes and the characters below
U+0020 are escaped, the rest stands for itself. -/
def escape (c : Char) : List Char :=
  match c with
  | '"' => ['\\', '"']
  | '\\' => ['\\', '\\']
  | '\n' => ['\\', 'n']
  | '\r' => ['\\', 'r']
  | '\t' => ['\\', 't']
  | '\x08' => ['\\', 'b']
  | '\x0c' => ['\\', 'f']
  | c =>
    if c.toNat < 0x20 then
      ['\\', 'u', '0', '0', hexDigit (c.toNat / 16), hexDigit (c.toNat % 16)]
    else [c]

def quote (s : String) : List Char := '"' :: s.toList.flatMap escape ++ ['"']

def newLine (level : Nat) : List Char := '\n' :: List.replicate (2 * level) ' '

mutual

/-- The value over several lines, indented by two blanks for each level; an empty list or object
takes no line of its own. -/
def prettyAt (level : Nat) : Value → List Char
  | .null => "null".toList
  | .bool true => "true".toList
  | .bool false => "false".toList
  | .num n => (toString n).toList
  | .str s => quote s
  | .arr [] => ['[', ']']
  | .arr (v :: vs) =>
    '[' :: newLine (level + 1) ++ prettyAt (level + 1) v ++ prettyItems (level + 1) vs ++
      newLine level ++ [']']
  | .obj [] => ['{', '}']
  | .obj ((k, v) :: ms) =>
    '{' :: newLine (level + 1) ++ quote k ++ [':', ' '] ++ prettyAt (level + 1) v ++
      prettyMembers (level + 1) ms ++ newLine level ++ ['}']

def prettyItems (level : Nat) : List Value → List Char
  | [] => []
  | v :: vs => ',' :: newLine level ++ prettyAt level v ++ prettyItems level vs

def prettyMembers (level : Nat) : List (String × Value) → List Char
  | [] => []
  | (k, v) :: ms =>
    ',' :: newLine level ++ quote k ++ [':', ' '] ++ prettyAt level v ++ prettyMembers level ms

end

def Value.pretty (v : Value) : String := String.ofList (prettyAt 0 v)

end AppSurface.Json
