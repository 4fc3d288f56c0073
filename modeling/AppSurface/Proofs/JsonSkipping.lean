import AppSurface.Proofs.JsonText

namespace AppSurface.Json

variable {ts more : List (List Char)} {s t rest : List Char} {n : Nat}

theorem Spaced.length_le (spaced : Spaced ts s) : ts.flatten.length ≤ s.length := by
  induction spaced with
  | nil => exact Nat.le_refl _
  | blank _ _ ih => exact Nat.le_succ_of_le ih
  | token _ ih => simpa using ih

theorem fewerThanFour_cons (a b c d : Char) (s : List Char) :
    fewerThanFour (a :: b :: c :: d :: s) = false := by
  have ha := a.utf8Size_pos
  have hb := b.utf8Size_pos
  have hc := c.utf8Size_pos
  have hd := d.utf8Size_pos
  have whole : ((a :: b :: c :: d :: s).take 4).foldr (fun c n => c.utf8Size + n) 0 =
      a.utf8Size + (b.utf8Size + (c.utf8Size + (d.utf8Size + 0))) := rfl
  rw [fewerThanFour, whole]
  exact decide_eq_false (by omega)

theorem ne_u_of_shortEscape? {e c : Char} (short : shortEscape? e = some c) : e ≠ 'u' := by
  rintro rfl
  simp [shortEscape?] at short

theorem skipString_content (h : Content s) (rest : List Char) :
    skipString .plain (s ++ '"' :: rest) = .ok rest := by
  induction h with
  | nil => simp [skipString]
  | @plain c s plain _ ih =>
    simp [skipString, plain.noQuote, plain.noBackslash, plain.printable, ih]
  | @short e c s short _ ih =>
    have noNumber := ne_u_of_shortEscape? short
    simp [skipString, noNumber, short, ih]
  | @numbered ds n s hex _ ih =>
    obtain ⟨ha, hb, hc, hd⟩ := hex
    simp [skipString, fewerThanFour_cons, ha, hb, hc, hd, ih]

theorem wordRest_append (cs rest : List Char) : wordRest cs (cs ++ rest) = .ok rest := by
  induction cs with
  | nil => rfl
  | cons c cs ih => simpa [wordRest] using ih

/-- The text does not go on with a digit. -/
def NoDigit (s : List Char) : Prop := ∀ c ∈ s.head?, c.isDigit = false

theorem splitDigits_append (digits : ∀ c ∈ t, c.isDigit) (ends : NoDigit rest) :
    splitDigits (t ++ rest) = (t, rest) := by
  rw [splitDigits, List.takeWhile_append_of_pos digits, List.dropWhile_append_of_pos digits]
  cases rest with
  | nil => simp
  | cons c rest => simp [ends c rfl]

theorem someDigits_append (digits : Digits t) (ends : NoDigit rest) :
    someDigits (t ++ rest) = .ok (t, rest) := by
  obtain ⟨nonempty, digits⟩ := digits
  rw [someDigits, splitDigits_append digits ends]
  cases t with
  | nil => exact absurd rfl nonempty
  | cons d t => rfl

theorem integerDigits_append {w : List Char} (whole : Whole w) (ends : NoDigit rest) :
    integerDigits (w ++ rest) = .ok (w, rest) := by
  cases whole with
  | zero =>
    have digits : Digits ['0'] := ⟨by simp, by simp⟩
    rw [integerDigits, someDigits_append digits ends]
    rfl
  | @digits c s first digits =>
    rw [integerDigits, someDigits_append digits ends]
    simp only [bind, Except.bind]
    split
    next zero => exact absurd (List.cons_eq_cons.1 zero).1 first
    next => rfl

theorem EndsNumber.noDigit (ends : EndsNumber s) : NoDigit s := fun c hc => (ends c hc).1

theorem Exponent.noDigit {e : List Char} (power : Exponent e) (ends : EndsNumber rest) :
    NoDigit (e ++ rest) := by
  cases power with
  | none => exact ends.noDigit
  | @power e sign s letter _ _ =>
    intro c hc
    obtain rfl : e = c := by simpa using hc
    rcases List.mem_pair.1 letter with rfl | rfl <;> rfl

theorem Fraction.noDigit {f : List Char} (fraction : Fraction f) (ends : NoDigit rest) :
    NoDigit (f ++ rest) := by
  cases fraction with
  | none => exact ends
  | point _ =>
    intro c hc
    obtain rfl : '.' = c := by simpa using hc
    rfl

/-- A digit is none of the characters that a part of a number or another value begins with. -/
theorem ne_of_isDigit {d c : Char} (digit : d.isDigit) (other : c.isDigit = false) : d ≠ c := by
  rintro rfl
  simp [digit] at other

theorem fractionDigits_append {f : List Char} (fraction : Fraction f) (noDigit : NoDigit rest)
    (noPoint : '.' ∉ rest.head?) : fractionDigits (f ++ rest) = .ok (f.tail, rest) := by
  cases fraction with
  | none =>
    rw [List.nil_append, fractionDigits.eq_def]
    split
    next => simp at noPoint
    next => rfl
  | point some => simpa [fractionDigits] using someDigits_append some noDigit

theorem exponent_of_endsNumber (ends : EndsNumber rest) : exponent rest = .ok (none, rest) := by
  rw [exponent.eq_def]
  split
  next => simpa using (ends 'e' rfl).2
  next => simpa using (ends 'E' rfl).2
  next => rfl

theorem exponent_append {e : List Char} (power : Exponent e) (ends : EndsNumber rest) :
    ∃ n, exponent (e ++ rest) = .ok (n, rest) := by
  cases power with
  | none => exact ⟨none, exponent_of_endsNumber ends⟩
  | @power e sign digits letter signs some =>
    obtain ⟨d, ds, rfl⟩ := List.exists_cons_of_ne_nil some.1
    have digit : d.isDigit := some.2 d List.mem_cons_self
    have read : someDigits (d :: (ds ++ rest)) = .ok (d :: ds, rest) :=
      someDigits_append some ends.noDigit
    simp only [List.mem_cons, List.not_mem_nil, or_false] at letter signs
    rcases letter with rfl | rfl <;> rcases signs with rfl | rfl | rfl <;>
      simp [exponent, ne_of_isDigit digit, read, bind, Except.bind]

theorem Exponent.noPoint {e : List Char} (power : Exponent e) (ends : EndsNumber rest) :
    '.' ∉ (e ++ rest).head? := by
  cases power with
  | none => exact fun point => by simpa using (ends '.' point).2
  | power letter _ _ =>
    rcases List.mem_pair.1 letter with rfl | rfl <;> simp

theorem parts_append {w f e : List Char} (whole : Whole w) (fraction : Fraction f)
    (power : Exponent e) (ends : EndsNumber rest) :
    ∃ n, integerDigits (w ++ (f ++ (e ++ rest))) = .ok (w, f ++ (e ++ rest)) ∧
      fractionDigits (f ++ (e ++ rest)) = .ok (f.tail, e ++ rest) ∧
      exponent (e ++ rest) = .ok (n, rest) := by
  have noDigit := power.noDigit ends
  obtain ⟨n, last⟩ := exponent_append power ends
  exact ⟨n, integerDigits_append whole (fraction.noDigit noDigit),
    fractionDigits_append fraction noDigit (power.noPoint ends), last⟩

theorem Whole.exists_digit {w : List Char} (whole : Whole w) :
    ∃ d ds, w = d :: ds ∧ d.isDigit := by
  cases whole with
  | zero => exact ⟨'0', [], rfl, rfl⟩
  | @digits c s _ digits => exact ⟨c, s, rfl, digits.2 c List.mem_cons_self⟩

theorem skipNumber_append (number : IsNumber t) (ends : EndsNumber rest) :
    skipNumber (t ++ rest) = .ok rest := by
  cases number with
  | negative whole fraction power =>
    obtain ⟨n, first, second, third⟩ := parts_append whole fraction power ends
    simp [skipNumber, first, second, third, bind, Except.bind, pure, Except.pure]
  | positive whole fraction power =>
    obtain ⟨n, first, second, third⟩ := parts_append whole fraction power ends
    obtain ⟨d, ds, rfl, digit⟩ := whole.exists_digit
    simp only [List.cons_append] at first
    simp [skipNumber, ne_of_isDigit digit, first, second, third, bind, Except.bind, pure,
      Except.pure]

theorem Spaced.endsNumber (spaced : Spaced more s) (ends : Ends more) : EndsNumber s := by
  cases spaced with
  | nil => exact fun c hc => by simp at hc
  | @blank _ c s blank _ =>
    intro d hd
    obtain rfl : c = d := by simpa using hd
    simp only [isBlank, Bool.or_eq_true, beq_iff_eq] at blank
    rcases blank with ((rfl | rfl) | rfl) | rfl <;> decide
  | @token ts t s _ =>
    have closes := ends t rfl
    simp only [List.mem_cons, List.not_mem_nil, or_false] at closes
    rcases closes with rfl | rfl | rfl <;> simp [EndsNumber]

theorem ends_separated (close : Char) (closes : close ∈ [']', '}'])
    (items : List (List (List Char))) (more : List (List Char)) :
    Ends (separated [close] false items ++ more) := by
  cases items with
  | nil => rcases List.mem_pair.1 closes with rfl | rfl <;> simp [Ends, separated]
  | cons ts items => simp [Ends, separated, lead]

/-- The tokens begin with a character that is neither blank nor the end of a list or record. -/
def Begins (ts : List (List Char)) : Prop :=
  ∃ c t ts', ts = (c :: t) :: ts' ∧ isBlank c = false ∧ c ∉ [']', '}']

theorem Begins.separated (begins : Begins ts) (close : List Char)
    (items : List (List (List Char))) : Begins (separated close true (ts :: items)) := by
  obtain ⟨c, t, ts, rfl, solid, noClose⟩ := begins
  exact ⟨c, t, _, rfl, solid, noClose⟩

theorem begins_of_isDigit {d : Char} (digit : d.isDigit) (t : List Char) :
    Begins ((d :: t) :: ts) :=
  ⟨d, t, ts, rfl, by simp [isBlank, ne_of_isDigit digit], by simp [ne_of_isDigit digit]⟩

theorem Written.begins (written : Written ts) : Begins ts := by
  cases written with
  | null => exact ⟨'n', _, _, rfl, rfl, by decide⟩
  | true => exact ⟨'t', _, _, rfl, rfl, by decide⟩
  | false => exact ⟨'f', _, _, rfl, rfl, by decide⟩
  | number number =>
    cases number with
    | negative => exact ⟨'-', _, _, rfl, rfl, by decide⟩
    | positive whole =>
      obtain ⟨d, ds, rfl, digit⟩ := whole.exists_digit
      exact begins_of_isDigit digit _
  | string => exact ⟨'"', _, _, rfl, rfl, by decide⟩
  | array => exact ⟨'[', _, _, rfl, rfl, by decide⟩
  | object => exact ⟨'{', _, _, rfl, rfl, by decide⟩

theorem Spaced.skipBlank_begins (begins : Begins ts) (spaced : Spaced (ts ++ more) s) :
    ∃ c t, Json.skipBlank s = c :: t ∧ c ∉ [']', '}'] ∧ Spaced (ts ++ more) (c :: t) ∧
      t.length < s.length := by
  obtain ⟨c, u, ts, rfl, solid, noClose⟩ := begins
  obtain ⟨rest, hs, behind, hl⟩ := Spaced.skipBlank solid spaced
  exact ⟨c, u ++ rest, hs, noClose, .token (t := c :: u) behind, by simpa using hl⟩

/-- Every text of the tokens is passed, and what follows is left. -/
def Passes (pass : Nat → List Char → List Char → Prop) (ts : List (List Char)) : Prop :=
  ∀ n s more, ts.flatten.length ≤ n → Ends more → Spaced (ts ++ more) s →
    ∃ rest, pass n s rest ∧ Spaced more rest ∧ rest.length < s.length

/-- The text is skipped up to what is left of it. -/
def Skips (n : Nat) (s rest : List Char) : Prop := skip n s = .ok rest

theorem passes_number (number : IsNumber t) : Passes Skips [t] := by
  intro n s more hn ends spaced
  have first : ∃ c u, t = c :: u ∧ isBlank c = false ∧ (c = '-' ∨ c.isDigit) := by
    cases number with
    | negative => exact ⟨'-', _, rfl, rfl, .inl rfl⟩
    | positive whole =>
      obtain ⟨d, ds, rfl, digit⟩ := whole.exists_digit
      exact ⟨d, _, rfl, by simp [isBlank, ne_of_isDigit digit], .inr digit⟩
  obtain ⟨c, u, rfl, solid, first⟩ := first
  obtain ⟨m, rfl⟩ := Nat.exists_eq_add_one_of_ne_zero (n := n) (by simp at hn; omega)
  obtain ⟨rest, hs, behind, hl⟩ := Spaced.skipBlank solid spaced
  refine ⟨rest, ?_, behind, by omega⟩
  have skipped := skipNumber_append number (behind.endsNumber ends)
  rw [List.cons_append] at skipped
  have others : c ≠ 'n' ∧ c ≠ 't' ∧ c ≠ 'f' ∧ c ≠ '"' ∧ c ≠ '[' ∧ c ≠ '{' := by
    rcases first with rfl | digit
    · decide
    · simp [ne_of_isDigit digit]
  simp [Skips, skip, hs, others, first, skipped]

theorem passes_word (c : Char) (cs : List Char) (solid : isBlank c = false)
    (skipped : ∀ n s t, skipBlank s = c :: t → skip (n + 1) s = wordRest cs t) :
    Passes Skips [c :: cs] := by
  intro n s more hn ends spaced
  obtain ⟨m, rfl⟩ := Nat.exists_eq_add_one_of_ne_zero (n := n) (by simp at hn; omega)
  obtain ⟨rest, hs, behind, hl⟩ := Spaced.skipBlank solid spaced
  exact ⟨rest, (skipped m s _ hs).trans (wordRest_append cs rest), behind, by omega⟩

theorem passes_string (content : Content t) : Passes Skips [quoted t] := by
  intro n s more hn ends spaced
  obtain ⟨m, rfl⟩ := Nat.exists_eq_add_one_of_ne_zero (n := n) (by simp [quoted] at hn; omega)
  obtain ⟨rest, hs, behind, hl⟩ := Spaced.skipBlank (c := '"') rfl spaced
  refine ⟨rest, ?_, behind, by omega⟩
  simp [Skips, skip, hs, skipString_content content]

/-- The text is skipped up to what is left of it, a key and a colon in front. -/
def SkipsMember (n : Nat) (s rest : List Char) : Prop :=
  ∃ k u v, skipBlank s = '"' :: k ∧ skipString .plain k = .ok u ∧ skipBlank u = ':' :: v ∧
    skip n v = .ok rest

theorem passes_memberOf {key : List Char} (content : Content key) (passes : Passes Skips ts) :
    Passes SkipsMember (memberOf key ts) := by
  intro n s more hn ends spaced
  simp only [memberOf, List.flatten_cons, List.length_append, List.length_singleton] at hn
  obtain ⟨u, hs, spaced, hl⟩ := Spaced.skipBlank (c := '"') rfl spaced
  obtain ⟨v, hu, spaced, hl'⟩ := Spaced.skipBlank (c := ':') rfl spaced
  obtain ⟨rest, hv, spaced, hl''⟩ := passes n v more (by omega) ends spaced
  refine ⟨rest, ⟨_, u, v, hs, ?_, hu, hv⟩, spaced, by omega⟩
  simp [skipString_content content]

/-- What stands between two brackets is skipped by `all`, which passes one item after the other and
a comma behind each but the last. -/
structure SkipsBetween (start close : Char) (one : Nat → List Char → List Char → Prop)
    (all : Nat → List Char → Except Defect (List Char)) : Prop where
  solid : isBlank start = false
  closes : close ∈ [']', '}']
  none : ∀ n s t u, skipBlank s = start :: t → skipBlank t = close :: u → skip (n + 1) s = .ok u
  some : ∀ n s t c u, skipBlank s = start :: t → skipBlank t = c :: u → c ∉ [']', '}'] →
    skip (n + 1) s = all n (c :: u)
  last : ∀ n s t u, one n s t → skipBlank t = close :: u → all (n + 1) s = .ok u
  next : ∀ n s t u, one n s t → skipBlank t = ',' :: u → all (n + 1) s = all n u

theorem skipsBetween_items : SkipsBetween '[' ']' Skips skipItems where
  solid := rfl
  closes := by simp
  none n s t u hs ht := by simp [skip, hs, ht]
  some n s t c u hs ht other := by
    have noClose : c ≠ ']' := by
      rintro rfl
      simp at other
    simp [skip, hs, ht, noClose]
  last n s t u first closed := by
    rw [Skips] at first
    simp [skipItems, first, closed, bind, Except.bind]
  next n s t u first comma := by
    rw [Skips] at first
    simp [skipItems, first, comma, bind, Except.bind]

theorem skipsBetween_members : SkipsBetween '{' '}' SkipsMember skipMembers where
  solid := rfl
  closes := by simp
  none n s t u hs ht := by simp [skip, hs, ht]
  some n s t c u hs ht other := by
    have noClose : c ≠ '}' := by
      rintro rfl
      simp at other
    simp [skip, hs, ht, noClose]
  last n s t u first closed := by
    obtain ⟨k, v, w, hs, hk, hv, hw⟩ := first
    simp [skipMembers, hs, hk, hv, hw, closed, bind, Except.bind]
  next n s t u first comma := by
    obtain ⟨k, v, w, hs, hk, hv, hw⟩ := first
    simp [skipMembers, hs, hk, hv, hw, comma, bind, Except.bind]

namespace SkipsBetween

variable {start close : Char} {one : Nat → List Char → List Char → Prop}
  {all : Nat → List Char → Except Defect (List Char)} {items : List (List (List Char))}

theorem solid_close (between : SkipsBetween start close one all) : isBlank close = false := by
  rcases List.mem_pair.1 between.closes with rfl | rfl <;> rfl

theorem separated_skipped (between : SkipsBetween start close one all) (nonempty : items ≠ [])
    (passes : ∀ ts ∈ items, Passes one ts)
    (hn : (separated [close] true items).flatten.length ≤ n)
    (spaced : Spaced (separated [close] true items ++ more) s) :
    ∃ rest, all n s = .ok rest ∧ Spaced more rest ∧ rest.length < s.length := by
  -- one unit of `n` is spent on each item, which has a comma or the closing bracket behind it
  induction items generalizing n s with
  | nil => exact absurd rfl nonempty
  | cons ts items ih =>
    simp only [separated, lead, List.nil_append, List.append_assoc, List.flatten_append,
      List.length_append] at spaced hn
    have ends := ends_separated close between.closes items more
    have pass := passes ts List.mem_cons_self
    cases items with
    | nil =>
      simp only [separated, List.flatten_singleton, List.length_singleton] at hn
      obtain ⟨m, rfl⟩ := Nat.exists_eq_add_one_of_ne_zero (n := n) (by omega)
      obtain ⟨t, first, behind, hl⟩ := pass m s _ (by omega) ends spaced
      obtain ⟨rest, closed, spaced, hl'⟩ := Spaced.skipBlank between.solid_close behind
      exact ⟨rest, between.last m s t _ first closed, spaced, by omega⟩
    | cons ts' items =>
      have comma : separated [close] false (ts' :: items) =
        [','] :: separated [close] true (ts' :: items) := rfl
      rw [comma, List.flatten_cons, List.length_append, List.length_singleton] at hn
      rw [comma] at spaced ends
      obtain ⟨m, rfl⟩ := Nat.exists_eq_add_one_of_ne_zero (n := n) (by omega)
      obtain ⟨t, first, behind, hl⟩ := pass m s _ (by omega) ends spaced
      obtain ⟨u, more, spaced, hl'⟩ := Spaced.skipBlank rfl behind
      obtain ⟨rest, others, spaced, hl''⟩ := ih (n := m) (List.cons_ne_nil _ _)
        (fun ts mem => passes ts (List.mem_cons_of_mem _ mem)) (by omega) spaced
      exact ⟨rest, (between.next m s t u first more).trans others, spaced, by omega⟩

theorem passes (between : SkipsBetween start close one all) (begins : ∀ ts ∈ items, Begins ts)
    (passes : ∀ ts ∈ items, Passes one ts) :
    Passes Skips ([start] :: separated [close] true items) := by
  intro n s more hn ends spaced
  rw [List.flatten_cons, List.length_append, List.length_singleton] at hn
  rw [List.cons_append] at spaced
  obtain ⟨m, rfl⟩ := Nat.exists_eq_add_one_of_ne_zero (n := n) (by omega)
  obtain ⟨t, hs, spaced, hl⟩ := Spaced.skipBlank between.solid spaced
  cases items with
  | nil =>
    obtain ⟨rest, ht, spaced, hl'⟩ := Spaced.skipBlank between.solid_close spaced
    exact ⟨rest, between.none m s _ rest hs ht, spaced, by omega⟩
  | cons ts items =>
    obtain ⟨c, u, ht, noClose, spaced, hl'⟩ := Spaced.skipBlank_begins
      ((begins ts List.mem_cons_self).separated [close] items) spaced
    obtain ⟨rest, skipped, spaced, hl''⟩ :=
      between.separated_skipped (n := m) (List.cons_ne_nil _ _) passes (by omega) spaced
    rw [List.length_cons] at hl''
    exact ⟨rest, (between.some m s _ c u hs ht noClose).trans skipped, spaced, by omega⟩

end SkipsBetween

theorem passes_written (written : Written ts) : Passes Skips ts := by
  induction written with
  | null => exact passes_word 'n' "ull".toList rfl fun n s t hs => by simp [skip, hs]
  | true => exact passes_word 't' "rue".toList rfl fun n s t hs => by simp [skip, hs]
  | false => exact passes_word 'f' "alse".toList rfl fun n s t hs => by simp [skip, hs]
  | number number => exact passes_number number
  | string content => exact passes_string content
  | array items ih => exact skipsBetween_items.passes (fun ts mem => (items ts mem).begins) ih
  | object contents _ ih =>
    refine skipsBetween_members.passes (List.forall_mem_map.2 fun m mem => ?_)
      (List.forall_mem_map.2 fun m mem => passes_memberOf (contents m mem) (ih m mem))
    exact ⟨'"', _, _, rfl, rfl, by simp⟩

end AppSurface.Json
