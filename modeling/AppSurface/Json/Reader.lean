import AppSurface.Unicode.Case

namespace AppSurface.Json

inductive Defect where
  | truncated
  | malformed
  | mistyped
deriving DecidableEq

/-- Reads from the front of a text and returns what is left. The number bounds the length of the
text: a reader does not run out on a text that is no longer. -/
abbrev Reader (α : Type) := Nat → List Char → Except Defect (α × List Char)

def isBlank (c : Char) : Bool := c == ' ' || c == '\t' || c == '\n' || c == '\r'

def skipBlank (s : List Char) : List Char := s.dropWhile isBlank

/-- Reads the rest of one of the words `null`, `true` and `false`. -/
def wordRest : List Char → List Char → Except Defect (List Char)
  | [], s => .ok s
  | _ :: _, [] => .error .truncated
  | c :: cs, d :: s => if c == d then wordRest cs s else .error .malformed

def hexValue? (c : Char) : Option Nat :=
  if '0' ≤ c && c ≤ '9' then some (c.toNat - '0'.toNat)
  else if 'a' ≤ c && c ≤ 'f' then some (c.toNat - 'a'.toNat + 10)
  else if 'A' ≤ c && c ≤ 'F' then some (c.toNat - 'A'.toNat + 10)
  else none

/-- Whether fewer than four bytes are left. -/
def fewerThanFour (s : List Char) : Bool := (s.take 4).foldr (fun c n => c.utf8Size + n) 0 < 4

/-- What is read inside a string: a character, the one behind a backslash, the digits of a numbered
escape, or the second escape of a pair that together stands for one character. -/
inductive StringReading where
  | plain
  | escape
  | digits (lead : Option Nat) (value left : Nat)
  | pairSlash (lead : Nat)
  | pairLetter (lead : Nat)

/-- The character of a short escape. -/
def shortEscape? (c : Char) : Option Char :=
  match c with
  | '"' => some '"'
  | '\\' => some '\\'
  | '/' => some '/'
  | 'b' => some '\x08'
  | 'f' => some '\x0c'
  | 'n' => some '\n'
  | 'r' => some '\r'
  | 't' => some '\t'
  | _ => none

/-- Reads a string behind its opening quote; `held` is what was read, last character first. Numbers
of surrogates are accepted in pairs only. -/
def stringFrom (reading : StringReading) (held : List Char) :
    List Char → Except Defect (List Char × List Char)
  | [] => .error .truncated
  | c :: s =>
    match reading with
    | .plain =>
      if c == '"' then .ok (held.reverse, s)
      else if c == '\\' then stringFrom .escape held s
      else if c.toNat < 0x20 then .error .malformed
      else stringFrom .plain (c :: held) s
    | .escape =>
      if c == 'u' then
        if fewerThanFour s then .error .truncated else stringFrom (.digits none 0 4) held s
      else
        match shortEscape? c with
        | some d => stringFrom .plain (d :: held) s
        | none => .error .malformed
    | .digits lead value left =>
      match hexValue? c with
      | none => .error .malformed
      | some d =>
        let n := 16 * value + d
        if 1 < left then stringFrom (.digits lead n (left - 1)) held s
        else
          match lead with
          | none =>
            if 0xdc00 ≤ n && n ≤ 0xdfff then .error .malformed
            else if 0xd800 ≤ n && n ≤ 0xdbff then stringFrom (.pairSlash n) held s
            else stringFrom .plain (Char.ofNat n :: held) s
          | some m =>
            if 0xdc00 ≤ n && n ≤ 0xdfff then
              stringFrom .plain
                (Char.ofNat (0x10000 + 0x400 * (m - 0xd800) + (n - 0xdc00)) :: held) s
            else .error .malformed
    | .pairSlash lead => if c == '\\' then stringFrom (.pairLetter lead) held s else .error .malformed
    | .pairLetter lead =>
      if c == 'u' then
        if fewerThanFour s then .error .truncated else stringFrom (.digits (some lead) 0 4) held s
      else .error .malformed

/-- Skips a string behind its opening quote. Numbered escapes need four digits, whatever they
stand for. -/
def skipString (reading : StringReading) : List Char → Except Defect (List Char)
  | [] => .error .truncated
  | c :: s =>
    match reading with
    | .escape =>
      if c == 'u' then
        if fewerThanFour s then .error .truncated else skipString (.digits none 0 4) s
      else if (shortEscape? c).isSome then skipString .plain s
      else .error .malformed
    | .digits lead value left =>
      if (hexValue? c).isNone then .error .malformed
      else if 1 < left then skipString (.digits lead value (left - 1)) s
      else skipString .plain s
    | _ =>
      if c == '"' then .ok s
      else if c == '\\' then skipString .escape s
      else if c.toNat < 0x20 then .error .malformed
      else skipString .plain s

/-- Splits off the digits in front. -/
def splitDigits (s : List Char) : List Char × List Char :=
  (s.takeWhile Char.isDigit, s.dropWhile Char.isDigit)

def natOf (digits : List Char) : Nat :=
  digits.foldl (fun n d => 10 * n + (d.toNat - '0'.toNat)) 0

/-- Digits of which there must be at least one. -/
def someDigits (s : List Char) : Except Defect (List Char × List Char) :=
  match splitDigits s with
  | ([], []) => .error .truncated
  | ([], _) => .error .malformed
  | r => .ok r

/-- The digits of a number before a point or exponent: a zero in front stands alone. -/
def integerDigits (s : List Char) : Except Defect (List Char × List Char) := do
  let (digits, rest) ← someDigits s
  match digits with
  | '0' :: _ :: _ => .error .malformed
  | _ => .ok (digits, rest)

/-- The digits behind a point; none if there is no point. -/
def fractionDigits (s : List Char) : Except Defect (List Char × List Char) :=
  match s with
  | '.' :: t => someDigits t
  | _ => .ok ([], s)

/-- The exponent, if there is one. -/
def exponent (s : List Char) : Except Defect (Option Int × List Char) :=
  let signed (t : List Char) : Except Defect (Option Int × List Char) :=
    match t with
    | '-' :: u => do
      let (digits, rest) ← someDigits u
      .ok (some (-(natOf digits : Int)), rest)
    | '+' :: u => do
      let (digits, rest) ← someDigits u
      .ok (some (natOf digits : Int), rest)
    | _ => do
      let (digits, rest) ← someDigits t
      .ok (some (natOf digits : Int), rest)
  match s with
  | 'e' :: t => signed t
  | 'E' :: t => signed t
  | _ => .ok (none, s)

/-- Whether `m` times a power of ten rounds to no finite double. -/
def isHuge (m : Nat) (power : Int) : Bool :=
  if m = 0 then false
  else
    let digits : Int := (toString m).length
    if 310 < digits + power then true
    else if digits + power < 300 then false
    else
      let bound := Nat.pow 2 1024 - Nat.pow 2 970
      if 0 ≤ power then bound ≤ m * Nat.pow 10 power.toNat
      else bound * Nat.pow 10 (-power).toNat ≤ m

/-- A number behind its sign, as a natural number below 2^64 if it is written as one. A number that
is no finite double is a defect of the text. -/
def numberBehind (negative : Bool) (s : List Char) :
    Except Defect (Option Nat × List Char) := do
  let (whole, s) ← integerDigits s
  let (fraction, s) ← fractionDigits s
  let (power, s) ← exponent s
  let shift : Int := power.getD 0 - fraction.length
  if isHuge (natOf (whole ++ fraction)) shift then .error .malformed
  else if !negative && fraction.isEmpty && power.isNone && natOf whole < UInt64.size then
    .ok (some (natOf whole), s)
  else .ok (none, s)

def number (s : List Char) : Except Defect (Option Nat × List Char) :=
  match s with
  | '-' :: t => numberBehind true t
  | _ => numberBehind false s

/-- Skips a number. One that breaks off is malformed, even at the end of the text. -/
def skipNumber (s : List Char) : Except Defect (List Char) :=
  let digits := match s with
    | '-' :: t => t
    | _ => s
  let skipped := do
    let (_, s) ← integerDigits digits
    let (_, s) ← fractionDigits s
    let (_, s) ← exponent s
    pure s
  match skipped with
  | .ok rest => .ok rest
  | .error _ => .error .malformed

/-- The defect of a value that is not of the kind asked for. It is read first, except for arrays
and objects, so that a defect in it comes first. -/
def wrongKind (s : List Char) : Defect :=
  let read : Except Defect (List Char) := match s with
    | 'n' :: t => wordRest "ull".toList t
    | 't' :: t => wordRest "rue".toList t
    | 'f' :: t => wordRest "alse".toList t
    | '"' :: t => (stringFrom .plain [] t).map fun r => r.2
    | '[' :: t => .ok t
    | '\x7b' :: t => .ok t
    | c :: _ =>
      if c == '-' || c.isDigit then (number s).map fun r => r.2 else .error .malformed
    | [] => .error .malformed
  match read with
  | .ok _ => .mistyped
  | .error defect => defect

/-- Gives a reader of one kind of value the text from the value's first character on. -/
def value {α : Type} (read : Char → List Char → Except Defect (α × List Char)) (s : List Char) :
    Except Defect (α × List Char) :=
  match skipBlank s with
  | [] => .error .truncated
  | c :: t => read c t

def string : Reader String := fun _ =>
  value fun c t =>
    if c == '"' then (stringFrom .plain [] t).map fun r => (String.ofList r.1, r.2)
    else .error (wrongKind (c :: t))

def bool : Reader Bool := fun _ =>
  value fun c t =>
    if c == 't' then (wordRest "rue".toList t).map (true, ·)
    else if c == 'f' then (wordRest "alse".toList t).map (false, ·)
    else .error (wrongKind (c :: t))

def null : Reader Unit := fun _ =>
  value fun c t =>
    if c == 'n' then (wordRest "ull".toList t).map ((), ·) else .error (wrongKind (c :: t))

/-- A natural number below 2^64, written as digits only. -/
def natural : Reader Nat := fun _ =>
  value fun c t =>
    if c == '-' || c.isDigit then
      match number (c :: t) with
      | .ok (some n, rest) => .ok (n, rest)
      | .ok (none, _) => .error .mistyped
      | .error defect => .error defect
    else .error (wrongKind (c :: t))

/-- The items of an array up to its closing bracket. -/
def itemsFrom {α : Type} (item : Reader α) (first : Bool) : Reader (List α)
  | 0, _ => .error .truncated
  | n + 1, s =>
    match skipBlank s with
    | [] => .error .truncated
    | ']' :: t => .ok ([], t)
    | c :: t => do
      let u ←
        if first then pure (c :: t)
        else if c == ',' then
          match skipBlank t with
          | [] => .error .truncated
          | ']' :: _ => .error .malformed
          | u => pure u
        else .error .malformed
      let (x, rest) ← item n u
      let (xs, rest) ← itemsFrom item false n rest
      pure (x :: xs, rest)

def list {α : Type} (item : Reader α) : Reader (List α) := fun n =>
  value fun c t => if c == '[' then itemsFrom item true n t else .error (wrongKind (c :: t))

mutual

/-- Skips a value of any kind. -/
def skip : Nat → List Char → Except Defect (List Char)
  | 0, _ => .error .truncated
  | n + 1, s =>
    match skipBlank s with
    | [] => .error .truncated
    | 'n' :: t => wordRest "ull".toList t
    | 't' :: t => wordRest "rue".toList t
    | 'f' :: t => wordRest "alse".toList t
    | '"' :: t => skipString .plain t
    | '[' :: t =>
      match skipBlank t with
      | ']' :: u => .ok u
      | [] => .error .truncated
      | u => skipItems n u
    | '\x7b' :: t =>
      match skipBlank t with
      | '\x7d' :: u => .ok u
      | u => skipMembers n u
    | c :: t => if c == '-' || c.isDigit then skipNumber (c :: t) else .error .malformed

/-- Skips the items of an array up to its closing bracket. -/
def skipItems : Nat → List Char → Except Defect (List Char)
  | 0, _ => .error .truncated
  | n + 1, s => do
    let t ← skip n s
    match skipBlank t with
    | [] => .error .truncated
    | ',' :: u => skipItems n u
    | ']' :: u => .ok u
    | _ => .error .malformed

/-- Skips the members of an object up to its closing brace. -/
def skipMembers : Nat → List Char → Except Defect (List Char)
  | 0, _ => .error .truncated
  | n + 1, s =>
    match skipBlank s with
    | [] => .error .truncated
    | '"' :: t => do
      let u ← skipString .plain t
      match skipBlank u with
      | [] => .error .truncated
      | ':' :: v => do
        let w ← skip n v
        match skipBlank w with
        | [] => .error .truncated
        | ',' :: x => skipMembers n x
        | '\x7d' :: x => .ok x
        | _ => .error .malformed
      | _ => .error .malformed
    | _ => .error .malformed

end

/-- The colon behind a key. -/
def colon (s : List Char) : Except Defect (List Char) :=
  match skipBlank s with
  | [] => .error .truncated
  | ':' :: t => .ok t
  | _ => .error .malformed

/-- A field of a record: its key, and how its value is read and put in place. -/
structure Field (α : Type) where
  key : String
  read : Reader (α → α)

/-- A field whose value is put in place by `set`. -/
def Field.of {α β : Type} (key : String) (read : Reader β) (set : β → α → α) : Field α :=
  ⟨key, fun n s => (read n s).map fun r => (set r.1, r.2)⟩

/-- A record under way, and the keys of the fields that were given. -/
structure Draft (α : Type) where
  value : α
  given : List String

def Draft.put {α : Type} (d : Draft α) (key : String) (change : α → α) : Draft α :=
  ⟨change d.value, key :: d.given⟩

/-- The record, unless a required field is missing. -/
def Draft.finish {α : Type} (d : Draft α) (required : List String) : Except Defect α :=
  if required.all d.given.contains then .ok d.value else .error .mistyped

/-- The members of an object up to its closing brace. A field must not be given twice, and members
that are no fields are skipped. -/
def membersFrom {α : Type} (fields : List (Field α)) (first : Bool) (draft : Draft α) :
    Reader (Draft α)
  | 0, _ => .error .truncated
  | n + 1, s =>
    match skipBlank s with
    | [] => .error .truncated
    | '\x7d' :: t => .ok (draft, t)
    | c :: t => do
      let u ←
        if first then pure (c :: t)
        else if c == ',' then
          match skipBlank t with
          | [] => .error .truncated
          | u => pure u
        else .error .malformed
      match u with
      | '"' :: v => do
        let (key, rest) ← stringFrom .plain [] v
        match fields.find? fun f => f.key == String.ofList key with
        | some f =>
          if draft.given.contains f.key then .error .mistyped
          else do
            let rest ← colon rest
            let (change, rest) ← f.read n rest
            membersFrom fields false (draft.put f.key change) n rest
        | none => do
          let rest ← colon rest
          let rest ← skip n rest
          membersFrom fields false draft n rest
      | _ => .error .malformed

/-- The fields of a record written as an array, in their order, up to the closing bracket. The
array may end early but must not be longer. -/
def placesFrom {α : Type} (n : Nat) (first : Bool) (draft : Draft α) :
    List (Field α) → List Char → Except Defect (Draft α × List Char)
  | [], s =>
    match skipBlank s with
    | [] => .error .truncated
    | ']' :: t => .ok (draft, t)
    | _ => .error .malformed
  | f :: fields, s =>
    match skipBlank s with
    | [] => .error .truncated
    | ']' :: t => .ok (draft, t)
    | c :: t => do
      let u ←
        if first then pure (c :: t)
        else if c == ',' then
          match skipBlank t with
          | [] => .error .truncated
          | ']' :: _ => .error .malformed
          | u => pure u
        else .error .malformed
      let (change, rest) ← f.read n u
      placesFrom n false (draft.put f.key change) fields rest

/-- A record written as an array of its fields. -/
def tuple {α : Type} (blank : α) (required : List String) (fields : List (Field α)) :
    Reader α := fun n =>
  value fun c t =>
    if c == '[' then do
      let (draft, rest) ← placesFrom n true ⟨blank, []⟩ fields t
      let a ← draft.finish required
      pure (a, rest)
    else .error (wrongKind (c :: t))

/-- A record written as an object or as an array of its fields. A field that is not given keeps
its value in `blank`, but the required ones must be given. -/
def record {α : Type} (blank : α) (required : List String) (fields : List (Field α)) :
    Reader α := fun n =>
  value fun c t => do
    if c == '\x7b' then
      let (draft, rest) ← membersFrom fields true ⟨blank, []⟩ n t
      let a ← draft.finish required
      pure (a, rest)
    else tuple blank required fields n (c :: t)

/-- An array of two texts. -/
def stringPair : Reader (String × String) :=
  tuple ("", "") ["first", "second"]
    [.of "first" string fun x p => (x, p.2), .of "second" string fun y p => (p.1, y)]

/-- Reads a whole text. -/
def decode {α : Type} (read : Reader α) (text : String) : Except Defect α := do
  let s := text.toList
  let (a, rest) ← read s.length s
  if (skipBlank rest).isEmpty then pure a else .error .malformed

end AppSurface.Json
