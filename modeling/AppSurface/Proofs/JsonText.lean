import AppSurface.Proofs.JsonLayout
import Mathlib.Data.List.Forall2

namespace AppSurface.Json

/-- Four hexadecimal digits, and the number they stand for. -/
inductive Hex : List Char → Nat → Prop
  | mk {a b c d : Char} {w x y z : Nat} :
      hexValue? a = some w → hexValue? b = some x → hexValue? c = some y → hexValue? d = some z →
      Hex [a, b, c, d] (16 * (16 * (16 * w + x) + y) + z)

/-- A character that stands for itself inside a string. -/
structure IsPlain (c : Char) : Prop where
  noQuote : c ≠ '"'
  noBackslash : c ≠ '\\'
  printable : 0x20 ≤ c.toNat

/-- What may stand between the quotes of a string. -/
inductive Content : List Char → Prop
  | nil : Content []
  | plain {c s} : IsPlain c → Content s → Content (c :: s)
  | short {e c s} : shortEscape? e = some c → Content s → Content ('\\' :: e :: s)
  | numbered {ds n s} : Hex ds n → Content s → Content ('\\' :: 'u' :: (ds ++ s))

/-- What may stand between the quotes of a string for a text. A character is written as itself, by a
short escape, by its number or by the numbers of two surrogates. -/
inductive Spells : List Char → List Char → Prop
  | nil : Spells [] []
  | plain {c s cs} : IsPlain c → Spells s cs → Spells (c :: s) (c :: cs)
  | short {e c s cs} : shortEscape? e = some c → Spells s cs → Spells ('\\' :: e :: s) (c :: cs)
  | numbered {ds n s cs} : Hex ds n → n < 0xd800 ∨ 0xdfff < n → Spells s cs →
      Spells ('\\' :: 'u' :: (ds ++ s)) (Char.ofNat n :: cs)
  | pair {ds es m n s cs} :
      Hex ds m → 0xd800 ≤ m → m ≤ 0xdbff → Hex es n → 0xdc00 ≤ n → n ≤ 0xdfff → Spells s cs →
      Spells ('\\' :: 'u' :: (ds ++ '\\' :: 'u' :: (es ++ s)))
        (Char.ofNat (0x10000 + 0x400 * (m - 0xd800) + (n - 0xdc00)) :: cs)

/-- The token of a string. -/
def quoted (s : List Char) : List Char := '"' :: s ++ ['"']

theorem hexValue?_hexDigit : ∀ n < 16, hexValue? (hexDigit n) = some n := by decide

theorem Spells.escape {s cs : List Char} (c : Char) (h : Spells s cs) :
    Spells (escape c ++ s) (c :: cs) := by
  unfold Json.escape
  split
  case h_8 quote slash _ _ _ _ _ =>
    split
    next low =>
      have zero : hexValue? '0' = some 0 := by decide
      have hex := Hex.mk zero zero (hexValue?_hexDigit (c.toNat / 16) (by omega))
        (hexValue?_hexDigit (c.toNat % 16) (by omega))
      have whole : 16 * (16 * (16 * 0 + 0) + c.toNat / 16) + c.toNat % 16 = c.toNat := by omega
      have spelled := Spells.numbered hex (by omega) h
      rwa [whole, Char.ofNat_toNat] at spelled
    next high => exact .plain ⟨quote, slash, by omega⟩ h
  all_goals exact .short (by decide) h

theorem spells_escape (cs : List Char) : Spells (cs.flatMap escape) cs := by
  induction cs with
  | nil => exact .nil
  | cons c cs ih => exact .escape c ih

/-- One digit or more. -/
def Digits (s : List Char) : Prop := s ≠ [] ∧ ∀ c ∈ s, c.isDigit

/-- The digits in front of a point or exponent. -/
inductive Whole : List Char → Prop
  | zero : Whole ['0']
  | digits {c s} : c ≠ '0' → Digits (c :: s) → Whole (c :: s)

inductive Fraction : List Char → Prop
  | none : Fraction []
  | point {s} : Digits s → Fraction ('.' :: s)

inductive Exponent : List Char → Prop
  | none : Exponent []
  | power {e sign s} : e ∈ ['e', 'E'] → sign ∈ [[], ['-'], ['+']] → Digits s →
      Exponent (e :: (sign ++ s))

inductive IsNumber : List Char → Prop
  | positive {w f e} : Whole w → Fraction f → Exponent e → IsNumber (w ++ (f ++ e))
  | negative {w f e} : Whole w → Fraction f → Exponent e → IsNumber ('-' :: (w ++ (f ++ e)))

/-- The token before an item that is not the first one. -/
def lead : Bool → List (List Char)
  | true => []
  | false => [[',']]

/-- Items with commas between them, and the token that closes them. -/
def separated (close : List Char) (first : Bool) : List (List (List Char)) → List (List Char)
  | [] => [close]
  | ts :: items => lead first ++ (ts ++ separated close false items)

def arrayTokens (items : List (List (List Char))) : List (List Char) :=
  ['['] :: separated [']'] true items

/-- The tokens of a member, by what stands between the quotes of its key. -/
def memberOf (key : List Char) (ts : List (List Char)) : List (List Char) :=
  quoted key :: [':'] :: ts

def objectTokens (members : List (List (List Char))) : List (List Char) :=
  ['{'] :: separated ['}'] true members

/-- The tokens of any JSON. -/
inductive Written : List (List Char) → Prop
  | null : Written ["null".toList]
  | true : Written ["true".toList]
  | false : Written ["false".toList]
  | number {t} : IsNumber t → Written [t]
  | string {s} : Content s → Written [quoted s]
  | array {items : List (List (List Char))} :
      (∀ ts ∈ items, Written ts) → Written (arrayTokens items)
  | object {members : List (List Char × List (List Char))} :
      (∀ m ∈ members, Content m.1) → (∀ m ∈ members, Written m.2) →
      Written (objectTokens (members.map fun m => memberOf m.1 m.2))

/-- A member of an object as it is written, with its key in one of its spellings. -/
structure Member where
  key : String
  spelling : List Char
  spells : Spells spelling key.toList
  /-- The tokens of the value. -/
  value : List (List Char)

def Member.tokens (m : Member) : List (List Char) := memberOf m.spelling m.value

mutual

/-- The tokens write the value, with each string in one of its spellings. -/
inductive Writes : Value → List (List Char) → Prop
  | null : Writes .null ["null".toList]
  | true : Writes (.bool true) ["true".toList]
  | false : Writes (.bool false) ["false".toList]
  | num (n : Nat) : Writes (.num n) [(toString n).toList]
  | str {k : String} {s : List Char} : Spells s k.toList → Writes (.str k) [quoted s]
  | arr {vs : List Value} {items : List (List (List Char))} :
      List.Forall₂ Writes vs items → Writes (.arr vs) (arrayTokens items)
  | obj {ms : List (String × Value)} {members : List Member} :
      List.Forall₂ WritesMember ms members →
      Writes (.obj ms) (objectTokens (members.map (·.tokens)))

inductive WritesMember : String × Value → Member → Prop
  | mk {m : Member} {v : Value} : Writes v m.value → WritesMember (m.key, v) m

end

mutual

/-- The same value, with the members of objects in any order. -/
inductive Value.Same : Value → Value → Prop
  | refl (v : Value) : Value.Same v v
  | arr {vs ws : List Value} : List.Forall₂ Value.Same vs ws → Value.Same (.arr vs) (.arr ws)
  | obj {ms ns ms' : List (String × Value)} :
      List.Forall₂ SameMember ms ns → ns.Perm ms' → Value.Same (.obj ms) (.obj ms')

inductive SameMember : String × Value → String × Value → Prop
  | mk {k : String} {v w : Value} : Value.Same v w → SameMember (k, v) (k, w)

end

/-- The tokens write the value, with strings in any spelling and members of objects in any order. -/
def Value.IsText (v : Value) (ts : List (List Char)) : Prop := ∃ w, v.Same w ∧ Writes w ts

/-- The value of the first member with the key. -/
def Value.member? (v : Value) (k : String) : Option Value :=
  match v with
  | .obj ms => ms.lookup k
  | _ => none

/-- The member that is written for a value under a key. -/
def Member.of (m : String × Value) : Member :=
  ⟨m.1, m.1.toList.flatMap escape, spells_escape m.1.toList, m.2.tokens⟩

theorem itemTokens_eq (vs : List Value) :
    itemTokens vs = separated [']'] false (vs.map (·.tokens)) := by
  induction vs with
  | nil => rfl
  | cons v vs ih =>
    rw [itemTokens, ih]
    rfl

theorem memberTokens_eq (ms : List (String × Value)) :
    memberTokens ms = separated ['}'] false ((ms.map Member.of).map (·.tokens)) := by
  induction ms with
  | nil => rfl
  | cons m ms ih =>
    rw [memberTokens, ih]
    rfl

theorem tokens_arr (vs : List Value) :
    (Value.arr vs).tokens = arrayTokens (vs.map (·.tokens)) := by
  cases vs with
  | nil => rfl
  | cons v vs =>
    rw [Value.tokens, itemTokens_eq]
    rfl

theorem tokens_obj (ms : List (String × Value)) :
    (Value.obj ms).tokens = objectTokens ((ms.map Member.of).map (·.tokens)) := by
  cases ms with
  | nil => rfl
  | cons m ms =>
    rw [Value.tokens, memberTokens_eq]
    rfl

mutual

theorem writes_tokens (v : Value) : Writes v v.tokens := by
  cases v with
  | null => exact .null
  | bool b =>
    cases b with
    | false => exact .false
    | true => exact .true
  | num n => exact .num n
  | str s => exact .str (spells_escape s.toList)
  | arr vs =>
    rw [tokens_arr]
    exact .arr (writes_items vs)
  | obj ms =>
    rw [tokens_obj]
    exact .obj (writes_members ms)

theorem writes_items (vs : List Value) : List.Forall₂ Writes vs (vs.map (·.tokens)) := by
  cases vs with
  | nil => exact .nil
  | cons v vs => exact .cons (writes_tokens v) (writes_items vs)

theorem writes_members (ms : List (String × Value)) :
    List.Forall₂ WritesMember ms (ms.map Member.of) := by
  cases ms with
  | nil => exact .nil
  | cons m ms =>
    obtain ⟨k, v⟩ := m
    exact .cons (.mk (m := Member.of (k, v)) (writes_tokens v)) (writes_members ms)

end

/-- The tokens go on as they may behind a value. -/
def Ends (more : List (List Char)) : Prop := ∀ t ∈ more.head?, t ∈ [[','], [']'], ['}']]

/-- A number that stands in front is complete. -/
def EndsNumber (s : List Char) : Prop := ∀ c ∈ s.head?, c.isDigit = false ∧ c ∉ ['.', 'e', 'E']

end AppSurface.Json
