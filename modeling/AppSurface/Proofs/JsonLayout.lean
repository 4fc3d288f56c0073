import AppSurface.Json.Reader
import AppSurface.Json.Value
import Mathlib.Data.List.Basic

namespace AppSurface.Json

mutual

/-- The tokens of a value, a string being one token. -/
def Value.tokens : Value → List (List Char)
  | .null => ["null".toList]
  | .bool true => ["true".toList]
  | .bool false => ["false".toList]
  | .num n => [(toString n).toList]
  | .str s => [quote s]
  | .arr [] => [['['], [']']]
  | .arr (v :: vs) => ['['] :: (v.tokens ++ itemTokens vs)
  | .obj [] => [['{'], ['}']]
  | .obj ((k, v) :: ms) => ['{'] :: quote k :: [':'] :: (v.tokens ++ memberTokens ms)

/-- The tokens behind the first item of an array, the closing bracket included. -/
def itemTokens : List Value → List (List Char)
  | [] => [[']']]
  | v :: vs => [','] :: (v.tokens ++ itemTokens vs)

/-- The tokens behind the first member of an object, the closing brace included. -/
def memberTokens : List (String × Value) → List (List Char)
  | [] => [['}']]
  | (k, v) :: ms => [','] :: quote k :: [':'] :: (v.tokens ++ memberTokens ms)

end

/-- A text is made of some tokens and of blanks before, between and behind them. -/
inductive Spaced : List (List Char) → List Char → Prop
  | nil : Spaced [] []
  | blank {ts c s} : isBlank c = true → Spaced ts s → Spaced ts (c :: s)
  | token {ts t s} : Spaced ts s → Spaced (t :: ts) (t ++ s)

/-- The value without any blanks. -/
def Value.compact (v : Value) : String := String.ofList v.tokens.flatten

variable {ts : List (List Char)} {t s : List Char}

theorem spaced_flatten (ts : List (List Char)) : Spaced ts ts.flatten := by
  induction ts with
  | nil => exact .nil
  | cons t ts ih => exact .token ih

theorem Spaced.newLine (spaced : Spaced ts s) (level : Nat) :
    Spaced ts (newLine level ++ s) := by
  have indented : ∀ n, Spaced ts (List.replicate n ' ' ++ s) := by
    intro n
    induction n with
    | zero => exact spaced
    | succ n ih => exact .blank rfl ih
  exact .blank rfl (indented (2 * level))

mutual

/-- The form over several lines is a text of the value. -/
theorem spaced_prettyAt {more : List (List Char)} {rest : List Char} (v : Value) (level : Nat)
    (spaced : Spaced more rest) :
    Spaced (v.tokens ++ more) (prettyAt level v ++ rest) := by
  cases v with
  | null => exact .token spaced
  | bool b => cases b <;> exact .token spaced
  | num n => exact .token spaced
  | str s => exact .token spaced
  | arr vs =>
    cases vs with
    | nil => exact .token (t := ['[']) (.token (t := [']']) spaced)
    | cons v vs =>
      have items := spaced_prettyItems vs (level + 1) level spaced
      have first := spaced_prettyAt v (level + 1) items
      simpa [Value.tokens, prettyAt] using Spaced.token (t := ['[']) (first.newLine (level + 1))
  | obj ms =>
    cases ms with
    | nil => exact .token (t := ['{']) (.token (t := ['}']) spaced)
    | cons m ms =>
      obtain ⟨k, v⟩ := m
      have members := spaced_prettyMembers ms (level + 1) level spaced
      have first := spaced_prettyAt v (level + 1) members
      have key := Spaced.token (t := quote k) (.token (t := [':']) (.blank (c := ' ') rfl first))
      simpa [Value.tokens, prettyAt] using Spaced.token (t := ['{']) (key.newLine (level + 1))

theorem spaced_prettyItems {more : List (List Char)} {rest : List Char} (vs : List Value)
    (level outer : Nat) (spaced : Spaced more rest) :
    Spaced (itemTokens vs ++ more)
      (prettyItems level vs ++ (newLine outer ++ (']' :: rest))) := by
  cases vs with
  | nil => exact (Spaced.token (t := [']']) spaced).newLine outer
  | cons v vs =>
    have items := spaced_prettyItems vs level outer spaced
    have first := spaced_prettyAt v level items
    simpa [itemTokens, prettyItems] using Spaced.token (t := [',']) (first.newLine level)

theorem spaced_prettyMembers {more : List (List Char)} {rest : List Char}
    (ms : List (String × Value)) (level outer : Nat) (spaced : Spaced more rest) :
    Spaced (memberTokens ms ++ more)
      (prettyMembers level ms ++ (newLine outer ++ ('}' :: rest))) := by
  cases ms with
  | nil => exact (Spaced.token (t := ['}']) spaced).newLine outer
  | cons m ms =>
    obtain ⟨k, v⟩ := m
    have members := spaced_prettyMembers ms level outer spaced
    have first := spaced_prettyAt v level members
    have key := Spaced.token (t := quote k) (.token (t := [':']) (.blank (c := ' ') rfl first))
    simpa [memberTokens, prettyMembers] using Spaced.token (t := [',']) (key.newLine level)

end

theorem spaced_pretty (v : Value) : Spaced v.tokens v.pretty.toList := by
  simpa [Value.pretty] using spaced_prettyAt v 0 .nil

theorem spaced_compact (v : Value) : Spaced v.tokens v.compact.toList := by
  rw [Value.compact, String.toList_ofList]
  exact spaced_flatten v.tokens

/-- Behind the blanks in front of a text stands its first token, which must not be blank itself. -/
theorem Spaced.skipBlank {c : Char} (solid : isBlank c = false)
    (spaced : Spaced ((c :: t) :: ts) s) :
    ∃ rest, Json.skipBlank s = c :: (t ++ rest) ∧ Spaced ts rest ∧
      t.length + rest.length < s.length := by
  generalize he : (c :: t) :: ts = all at spaced
  induction spaced with
  | nil => cases he
  | @blank all b s hb _ ih =>
    obtain ⟨rest, hs, hr, hl⟩ := ih he
    refine ⟨rest, ?_, hr, Nat.lt_succ_of_lt hl⟩
    rw [Json.skipBlank, List.dropWhile_cons_of_pos hb]
    exact hs
  | @token all t' s spaced =>
    cases he
    refine ⟨s, ?_, spaced, by simp⟩
    simp [Json.skipBlank, solid]

theorem Spaced.skipBlank_nil (spaced : Spaced [] s) : Json.skipBlank s = [] := by
  generalize he : ([] : List (List Char)) = all at spaced
  induction spaced with
  | nil => rfl
  | blank hb _ ih =>
    rw [Json.skipBlank, List.dropWhile_cons_of_pos hb]
    exact ih he
  | token => cases he

end AppSurface.Json
