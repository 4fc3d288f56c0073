import AppSurface.Proofs.JsonSkipping

namespace AppSurface.Json

variable {α β : Type} {item : Reader α} {first : Bool} {c : Char} {n : Nat} {k : String}
  {s t u v rest : List Char} {ts more : List (List Char)} {items : List (List (List Char))}
  {vs : List Value} {as : List α}

/-- From every text of the tokens, with what may stand behind a value, the reader takes `a` and
leaves what follows. -/
def Takes (read : Reader α) (ts : List (List Char)) (a : α) : Prop :=
  ∀ n s more, s.length ≤ n → Ends more → Spaced (ts ++ more) s →
    ∃ rest, read n s = .ok (a, rest) ∧ Spaced more rest ∧ rest.length < s.length

/-- However the value `v` is written, the reader takes `a` from it. -/
def Reads (read : Reader α) (v : Value) (a : α) : Prop := ∀ ts, Writes v ts → Takes read ts a

/-- The text of a value, and of nothing but blanks behind it, is decoded. -/
theorem decode_of_takes {read : Reader α} {a : α} {text : String} (takes : Takes read ts a)
    (spaced : Spaced ts text.toList) : decode read text = .ok a := by
  obtain ⟨rest, hr, blank, -⟩ := takes text.toList.length text.toList [] (Nat.le_refl _)
    (by simp [Ends]) (by simpa using spaced)
  simp [decode, hr, bind, Except.bind, pure, Except.pure, blank.skipBlank_nil]

theorem decode_of_spaced {read : Reader α} {v : Value} {a : α} {text : String}
    (reads : Reads read v a) (spaced : Spaced v.tokens text.toList) : decode read text = .ok a :=
  decode_of_takes (reads _ (writes_tokens v)) spaced

/-- The digits of a numbered escape are read as the number they stand for. -/
theorem stringFrom_hex {ds : List Char} (hex : Hex ds n) (lead : Option Nat) (held s : List Char) :
    stringFrom (.digits lead 0 4) held (ds ++ s) =
      match lead with
      | none =>
        if 0xdc00 ≤ n && n ≤ 0xdfff then .error .malformed
        else if 0xd800 ≤ n && n ≤ 0xdbff then stringFrom (.pairSlash n) held s
        else stringFrom .plain (Char.ofNat n :: held) s
      | some m =>
        if 0xdc00 ≤ n && n ≤ 0xdfff then
          stringFrom .plain
            (Char.ofNat (0x10000 + 0x400 * (m - 0xd800) + (n - 0xdc00)) :: held) s
        else .error .malformed := by
  obtain ⟨ha, hb, hc, hd⟩ := hex
  cases lead <;> simp [stringFrom, ha, hb, hc, hd]

theorem Hex.fewerThanFour {ds : List Char} (hex : Hex ds n) (s : List Char) :
    fewerThanFour (ds ++ s) = false := by
  cases hex
  exact fewerThanFour_cons _ _ _ _ _

theorem stringFrom_spells {cs : List Char} (spells : Spells s cs) (held rest : List Char) :
    stringFrom .plain held (s ++ '"' :: rest) = .ok (held.reverse ++ cs, rest) := by
  induction spells generalizing held with
  | nil => simp [stringFrom]
  | @plain c s cs plain _ ih =>
    simp [stringFrom, plain.noQuote, plain.noBackslash, plain.printable, ih]
  | @short e c s cs short _ ih =>
    have noNumber := ne_u_of_shortEscape? short
    simp [stringFrom, noNumber, short, ih]
  | @numbered ds n s cs hex single _ ih =>
    have noLow : ¬(0xdc00 ≤ n ∧ n ≤ 0xdfff) := by omega
    have noHigh : ¬(0xd800 ≤ n ∧ n ≤ 0xdbff) := by omega
    simp [stringFrom, hex.fewerThanFour, stringFrom_hex hex, noLow, noHigh, ih]
  | @pair ds es m n s cs hex low high hex' low' high' _ ih =>
    have noLow : ¬(0xdc00 ≤ m ∧ m ≤ 0xdfff) := by omega
    simp [stringFrom, hex.fewerThanFour, stringFrom_hex hex, noLow, low, high,
      hex'.fewerThanFour, stringFrom_hex hex', low', high', ih]

theorem string_reads (k : String) : Reads string (.str k) k := by
  rintro ts ⟨⟩ n s more hn ends spaced
  rename_i s' spells
  obtain ⟨rest, hs, behind, hl⟩ := Spaced.skipBlank (c := '"') rfl spaced
  refine ⟨rest, ?_, behind, by omega⟩
  simp [string, value, hs, stringFrom_spells spells, Except.map]

theorem whole_toDigits (n : Nat) : Whole (Nat.toDigits 10 n) := by
  have digits (n : Nat) : Digits (Nat.toDigits 10 n) :=
    ⟨Nat.toDigits_ne_nil, fun c => Nat.isDigit_of_mem_toDigits (by decide) (by decide)⟩
  have first : ∀ n ≠ 0, '0' ∉ (Nat.toDigits 10 n).head? := by
    intro n
    induction n using Nat.strongRecOn with
    | ind n ih =>
      intro positive
      by_cases small : n < 10
      · rw [Nat.toDigits_of_lt_base small]
        simpa [eq_comm] using positive
      · rw [Nat.toDigits_of_base_le (by decide) (by omega)]
        have front := ih (n / 10) (by omega) (by omega)
        rwa [List.head?_append_of_ne_nil _ Nat.toDigits_ne_nil]
  by_cases zero : n = 0
  · subst zero
    exact .zero
  · obtain ⟨d, ds, hd⟩ := List.exists_cons_of_ne_nil (Nat.toDigits_ne_nil (n := n) (b := 10))
    have nonzero := first n zero
    have all := digits n
    rw [hd] at nonzero all ⊢
    exact .digits (by rintro rfl; simp at nonzero) all

theorem isHuge_eq_false (fits : n < UInt64.size) : isHuge n 0 = false := by
  have short : (toString n).length ≤ 20 :=
    (Nat.length_repr_le_iff (by decide)).2 (Nat.lt_trans fits (by decide))
  have low : ¬310 < ((toString n).length : Int) + 0 := by omega
  have small : ((toString n).length : Int) + 0 < 300 := by omega
  simp only [isHuge, if_neg low, if_pos small, ite_self]

theorem number_toDigits (fits : n < UInt64.size) (ends : EndsNumber rest) :
    number (Nat.toDigits 10 n ++ rest) = .ok (some n, rest) := by
  have value : natOf (Nat.toDigits 10 n) = n := Nat.ofDigitChars_ten_toDigits
  have whole := whole_toDigits n
  have first := integerDigits_append whole ends.noDigit
  have second := fractionDigits_append .none ends.noDigit (Exponent.none.noPoint ends)
  have third := exponent_of_endsNumber ends
  obtain ⟨d, ds, hd, digit⟩ := whole.exists_digit
  rw [hd] at value first ⊢
  simp only [List.cons_append, List.nil_append] at first second
  simp [number, ne_of_isDigit digit, numberBehind, first, second, third, value,
    isHuge_eq_false fits, fits, bind, Except.bind]

theorem natural_reads (fits : n < UInt64.size) : Reads natural (.num n) n := by
  rintro ts ⟨⟩ m s more hm ends spaced
  obtain ⟨d, ds, hd, digit⟩ := (whole_toDigits n).exists_digit
  have token : (toString n).toList = d :: ds := Nat.toList_repr.trans hd
  rw [token] at spaced
  obtain ⟨rest, hs, behind, hl⟩ := Spaced.skipBlank (by simp [isBlank, ne_of_isDigit digit]) spaced
  have read := number_toDigits fits (behind.endsNumber ends)
  rw [hd, List.cons_append] at read
  exact ⟨rest, by simp [natural, value, hs, digit, read], behind, by omega⟩

theorem bool_reads (b : Bool) : Reads bool (.bool b) b := by
  cases b with
  | false =>
    rintro ts ⟨⟩ n s more hn ends spaced
    obtain ⟨rest, hs, behind, hl⟩ := Spaced.skipBlank (c := 'f') (t := "alse".toList) rfl spaced
    exact ⟨rest, by simp [bool, value, hs, wordRest, Except.map], behind, by omega⟩
  | true =>
    rintro ts ⟨⟩ n s more hn ends spaced
    obtain ⟨rest, hs, behind, hl⟩ := Spaced.skipBlank (c := 't') (t := "rue".toList) rfl spaced
    exact ⟨rest, by simp [bool, value, hs, wordRest, Except.map], behind, by omega⟩

/-- What is written for a value begins with a character that is neither blank nor the end of a list
or record. -/
theorem Writes.begins {v : Value} (writes : Writes v ts) : Begins ts := by
  cases writes with
  | null => exact ⟨'n', _, _, rfl, rfl, by decide⟩
  | true => exact ⟨'t', _, _, rfl, rfl, by decide⟩
  | false => exact ⟨'f', _, _, rfl, rfl, by decide⟩
  | num n =>
    obtain ⟨d, ds, hd, digit⟩ := (whole_toDigits n).exists_digit
    have token : (toString n).toList = d :: ds := Nat.toList_repr.trans hd
    rw [token]
    exact begins_of_isDigit digit ds
  | str => exact ⟨'"', _, _, rfl, rfl, by decide⟩
  | arr => exact ⟨'[', _, _, rfl, rfl, by decide⟩
  | obj => exact ⟨'{', _, _, rfl, rfl, by decide⟩

/-- Behind the comma that stands before all items but the first, the text `s` goes on with `u`. -/
inductive Opens : Bool → List Char → List Char → Prop
  | first {s u : List Char} : skipBlank s = u → Opens true s u
  | next {s t u : List Char} : skipBlank s = ',' :: t → skipBlank t = u → Opens false s u

theorem Spaced.opens (solid : isBlank c = false)
    (spaced : Spaced (lead first ++ (c :: t) :: ts) s) :
    ∃ rest, Opens first s (c :: (t ++ rest)) ∧ Spaced ts rest ∧
      t.length + rest.length < s.length := by
  cases first with
  | true =>
    obtain ⟨rest, hs, hr, hl⟩ := Spaced.skipBlank solid spaced
    exact ⟨rest, .first hs, hr, hl⟩
  | false =>
    obtain ⟨s', hs', spaced', hl'⟩ := Spaced.skipBlank (by decide) spaced
    obtain ⟨rest, hs, hr, hl⟩ := Spaced.skipBlank solid spaced'
    refine ⟨rest, .next hs' hs, hr, ?_⟩
    simp only [List.length_nil] at hl hl'
    omega

theorem Spaced.opens_value {a : α} {v : Value} (reads : Reads item v a) (writes : Writes v ts)
    (ends : Ends more) (hn : s.length ≤ n) (spaced : Spaced (lead first ++ (ts ++ more)) s) :
    ∃ c u rest, Opens first s (c :: u) ∧ c ≠ ']' ∧ item n (c :: u) = .ok (a, rest) ∧
      Spaced more rest ∧ rest.length < s.length := by
  obtain ⟨c, t, ts', tokens, solid, noClose⟩ := writes.begins
  rw [tokens, List.cons_append] at spaced
  obtain ⟨rest, opens, hr, hl⟩ := Spaced.opens solid spaced
  have again : Spaced (ts ++ more) (c :: (t ++ rest)) := by
    rw [tokens]
    exact .token (t := c :: t) hr
  have short : (c :: (t ++ rest)).length ≤ s.length := by
    simp only [List.length_cons, List.length_append]
    omega
  obtain ⟨left, hx, spaced, shorter⟩ := reads ts writes n _ more (by omega) ends again
  exact ⟨c, t ++ rest, left, opens, fun h => noClose (h ▸ List.mem_cons_self), hx, spaced,
    by omega⟩

theorem itemsFrom_of_item {x : α} {xs : List α} {rest' : List Char}
    (opens : Opens first s (c :: u)) (hc : c ≠ ']') (hx : item n (c :: u) = .ok (x, rest))
    (hxs : itemsFrom item false n rest = .ok (xs, rest')) :
    itemsFrom item first (n + 1) s = .ok (x :: xs, rest') := by
  cases opens with
  | first hs => simp [itemsFrom, hs, hx, hxs, bind, Except.bind, pure, Except.pure]
  | next hs ht => simp [itemsFrom, hs, ht, hc, hx, hxs, bind, Except.bind, pure, Except.pure]

theorem itemsFrom_reads (reads : List.Forall₂ (Reads item) vs as)
    (writes : List.Forall₂ Writes vs items) (hn : s.length < n)
    (spaced : Spaced (separated [']'] first items ++ more) s) :
    ∃ rest, itemsFrom item first n s = .ok (as, rest) ∧ Spaced more rest ∧
      rest.length < s.length := by
  -- one unit of `n` is spent on each item, and each item takes a character at least
  induction reads generalizing first n s items with
  | nil =>
    cases writes
    obtain ⟨rest, hs, hr, hl⟩ := Spaced.skipBlank (by decide) spaced
    obtain ⟨m, rfl⟩ := Nat.exists_eq_add_one_of_ne_zero (n := n) (by omega)
    exact ⟨rest, by simp [itemsFrom, hs], hr, by omega⟩
  | @cons v a vs as item_reads _ ih =>
    obtain _ | @⟨_, ts, _, items, written, writes⟩ := writes
    obtain ⟨m, rfl⟩ := Nat.exists_eq_add_one_of_ne_zero (n := n) (by omega)
    simp only [separated, List.append_assoc] at spaced
    have ends := ends_separated ']' (by simp) items more
    obtain ⟨c, u, rest, opens, hc, hx, spaced, hl⟩ :=
      Spaced.opens_value (n := m) item_reads written ends (by omega) spaced
    obtain ⟨left, hxs, spaced, hl'⟩ := ih (n := m) writes (by omega) spaced
    exact ⟨left, itemsFrom_of_item opens hc hx hxs, spaced, by omega⟩

theorem list_reads (reads : List.Forall₂ (Reads item) vs as) : Reads (list item) (.arr vs) as := by
  rintro ts ⟨⟩ n s more hn ends spaced
  rename_i items writes
  rw [arrayTokens, List.cons_append] at spaced
  obtain ⟨rest, hs, spaced, hl⟩ := Spaced.skipBlank (by decide) spaced
  simp only [List.nil_append, List.length_nil] at hs hl
  obtain ⟨left, hxs, spaced, hl'⟩ := itemsFrom_reads (n := n) reads writes (by omega) spaced
  exact ⟨left, by simp [list, value, hs, hxs], spaced, by omega⟩

theorem list_reads_map {write : α → Value} (reads : ∀ a, Reads item (write a) a) (as : List α) :
    Reads (list item) (.arr (as.map write)) as :=
  list_reads (List.forall₂_map_left_iff.2 (List.forall₂_same.2 fun a _ => reads a))

theorem Field.of_takes {read : Reader β} {b : β} (key : String) (set : β → α → α)
    (takes : Takes read ts b) : Takes (Field.of key read set).read ts (set b) := by
  intro n s more hn ends spaced
  obtain ⟨rest, hr, spaced, hl⟩ := takes n s more hn ends spaced
  exact ⟨rest, by simp [Field.of, hr, Except.map], spaced, hl⟩

theorem Field.of_reads {read : Reader β} {v : Value} {b : β} (key : String) (set : β → α → α)
    (reads : Reads read v b) : Reads (Field.of key read set).read v (set b) :=
  fun ts writes => Field.of_takes key set (reads ts writes)

@[simp] theorem Field.key_of (key : String) (read : Reader β) (set : β → α → α) :
    (Field.of key read set).key = key := rfl

@[simp] theorem Draft.given_put (d : Draft α) (key : String) (change : α → α) :
    (d.put key change).given = key :: d.given := rfl

variable {fields : List (Field α)} {d d' : Draft α} {ms : List (String × Value)}
  {members : List Member} {change : α → α}

/-- The members as they are written fill the draft `d` up to `d'`: each is a field that is not given
yet, or no field and any JSON. -/
inductive FillsWritten (fields : List (Field α)) : Draft α → List Member → Draft α → Prop
  | nil {d : Draft α} : FillsWritten fields d [] d
  | field {d d' : Draft α} {m : Member} {members : List Member} {f : Field α} {change : α → α} :
      (fields.find? fun f => f.key == m.key) = some f → f.key ∉ d.given →
      Takes f.read m.value change → FillsWritten fields (d.put f.key change) members d' →
      FillsWritten fields d (m :: members) d'
  | other {d d' : Draft α} {m : Member} {members : List Member} :
      (fields.find? fun f => f.key == m.key) = none → Written m.value →
      FillsWritten fields d members d' → FillsWritten fields d (m :: members) d'

/-- The members fill the draft `d` up to `d'`: each is a field that is not given yet. -/
inductive Fills (fields : List (Field α)) :
    Draft α → List (String × Value) → Draft α → Prop
  | nil {d : Draft α} : Fills fields d [] d
  | field {d d' : Draft α} {k : String} {v : Value} {ms : List (String × Value)} {f : Field α}
      {change : α → α} :
      (fields.find? fun f => f.key == k) = some f → f.key ∉ d.given →
      Reads f.read v change → Fills fields (d.put f.key change) ms d' →
      Fills fields d ((k, v) :: ms) d'

theorem Fills.written (fills : Fills fields d ms d')
    (writes : List.Forall₂ WritesMember ms members) : FillsWritten fields d members d' := by
  induction fills generalizing members with
  | nil =>
    cases writes
    exact .nil
  | @field d d' k v ms f change hf new reads _ ih =>
    obtain _ | ⟨⟨written⟩, writes⟩ := writes
    exact .field hf new (reads _ written) (ih writes)

theorem membersFrom_of_field {f : Field α} {key : List Char} {rest₁ rest₂ rest₃ : List Char}
    (opens : Opens first s ('"' :: u)) (hk : stringFrom .plain [] u = .ok (key, rest))
    (hf : (fields.find? fun f => f.key == String.ofList key) = some f)
    (new : f.key ∉ d.given) (hc : colon rest = .ok rest₁)
    (hv : f.read n rest₁ = .ok (change, rest₂))
    (hms : membersFrom fields false (d.put f.key change) n rest₂ = .ok (d', rest₃)) :
    membersFrom fields first d (n + 1) s = .ok (d', rest₃) := by
  cases opens with
  | first hs =>
    simp [membersFrom, hs, hk, hf, new, hc, hv, hms, bind, Except.bind, pure, Except.pure]
  | next hs ht =>
    simp [membersFrom, hs, ht, hk, hf, new, hc, hv, hms, bind, Except.bind, pure, Except.pure]

theorem membersFrom_of_other {key : List Char} {rest₁ rest₂ rest₃ : List Char}
    (opens : Opens first s ('"' :: u)) (hk : stringFrom .plain [] u = .ok (key, rest))
    (hf : (fields.find? fun f => f.key == String.ofList key) = none)
    (hc : colon rest = .ok rest₁) (hv : skip n rest₁ = .ok rest₂)
    (hms : membersFrom fields false d n rest₂ = .ok (d', rest₃)) :
    membersFrom fields first d (n + 1) s = .ok (d', rest₃) := by
  cases opens with
  | first hs => simp [membersFrom, hs, hk, hf, hc, hv, hms, bind, Except.bind, pure, Except.pure]
  | next hs ht =>
    simp [membersFrom, hs, ht, hk, hf, hc, hv, hms, bind, Except.bind, pure, Except.pure]

theorem Member.opens (m : Member) (spaced : Spaced (lead first ++ (m.tokens ++ more)) s) :
    ∃ u rest rest₁, Opens first s ('"' :: u) ∧ stringFrom .plain [] u = .ok (m.key.toList, rest) ∧
      colon rest = .ok rest₁ ∧ Spaced (m.value ++ more) rest₁ ∧ rest₁.length < s.length := by
  have key : m.tokens = ('"' :: (m.spelling ++ ['"'])) :: [':'] :: m.value := rfl
  rw [key, List.cons_append, List.cons_append] at spaced
  obtain ⟨rest, opens, spaced, hl⟩ := Spaced.opens rfl spaced
  obtain ⟨rest₁, hc, spaced, hl₁⟩ := Spaced.skipBlank rfl spaced
  refine ⟨_, rest, rest₁, opens, ?_, by simp [colon, hc], spaced, by omega⟩
  simpa using stringFrom_spells m.spells [] rest

theorem membersFrom_written (fills : FillsWritten fields d members d') (hn : s.length < n)
    (spaced : Spaced (separated ['}'] first (members.map (·.tokens)) ++ more) s) :
    ∃ rest, membersFrom fields first d n s = .ok (d', rest) ∧ Spaced more rest ∧
      rest.length < s.length := by
  induction fills generalizing first n s with
  | nil =>
    obtain ⟨rest, hs, hr, hl⟩ := Spaced.skipBlank (by decide) spaced
    obtain ⟨m, rfl⟩ := Nat.exists_eq_add_one_of_ne_zero (n := n) (by omega)
    exact ⟨rest, by simp [membersFrom, hs], hr, by omega⟩
  | @field d d' m members f change hf new takes _ ih =>
    obtain ⟨n, rfl⟩ := Nat.exists_eq_add_one_of_ne_zero (n := n) (by omega)
    simp only [List.map_cons, separated, List.append_assoc] at spaced
    have ends := ends_separated '}' (by simp) (members.map (·.tokens)) more
    obtain ⟨u, rest, rest₁, opens, hk, hc, spaced, hl⟩ := m.opens spaced
    obtain ⟨rest₂, hv, spaced, hl₂⟩ := takes n rest₁ _ (by omega) ends spaced
    obtain ⟨left, hms, spaced, hl'⟩ := ih (n := n) (by omega) spaced
    refine ⟨left, ?_, spaced, by omega⟩
    exact membersFrom_of_field opens hk (by simpa using hf) new hc hv hms
  | @other d d' m members hf written _ ih =>
    obtain ⟨n, rfl⟩ := Nat.exists_eq_add_one_of_ne_zero (n := n) (by omega)
    simp only [List.map_cons, separated, List.append_assoc] at spaced
    have ends := ends_separated '}' (by simp) (members.map (·.tokens)) more
    obtain ⟨u, rest, rest₁, opens, hk, hc, spaced, hl⟩ := m.opens spaced
    have room : m.value.flatten.length ≤ n := by
      have whole := spaced.length_le
      rw [List.flatten_append, List.length_append] at whole
      omega
    obtain ⟨rest₂, hv, spaced, hl₂⟩ := passes_written written n rest₁ _ room ends spaced
    obtain ⟨left, hms, spaced, hl'⟩ := ih (n := n) (by omega) spaced
    refine ⟨left, ?_, spaced, by omega⟩
    exact membersFrom_of_other opens hk (by simpa using hf) hc hv hms

theorem record_takes {blank : α} {required : List String}
    (fills : FillsWritten fields ⟨blank, []⟩ members d) (given : required.all d.given.contains) :
    Takes (record blank required fields) (objectTokens (members.map (·.tokens))) d.value := by
  intro n s more hn ends spaced
  rw [objectTokens, List.cons_append] at spaced
  obtain ⟨rest, hs, spaced, hl⟩ := Spaced.skipBlank (by decide) spaced
  simp only [List.nil_append, List.length_nil] at hs hl
  obtain ⟨left, hms, spaced, hl'⟩ := membersFrom_written (n := n) fills (by omega) spaced
  refine ⟨left, ?_, spaced, by omega⟩
  simp [record, value, hs, hms, Draft.finish, given, bind, Except.bind, pure, Except.pure]

theorem record_reads {blank : α} {required : List String}
    (fills : Fills fields ⟨blank, []⟩ ms d) (given : required.all d.given.contains) :
    Reads (record blank required fields) (.obj ms) d.value := by
  rintro ts ⟨⟩
  rename_i members writes
  exact record_takes (fills.written writes) given

/-- The items fill the draft `d` up to `d'`, each by the field of its place. -/
inductive Places : List (Field α) → Draft α → List Value → Draft α → Prop
  | nil {fields : List (Field α)} {d : Draft α} : Places fields d [] d
  | item {fields : List (Field α)} {d d' : Draft α} {f : Field α} {change : α → α} {v : Value}
      {vs : List Value} :
      Reads f.read v change → Places fields (d.put f.key change) vs d' →
      Places (f :: fields) d (v :: vs) d'

theorem placesFrom_of_item {f : Field α} {rest' : List Char} (opens : Opens first s (c :: u))
    (hc : c ≠ ']') (hv : f.read n (c :: u) = .ok (change, rest))
    (hvs : placesFrom n false (d.put f.key change) fields rest = .ok (d', rest')) :
    placesFrom n first d (f :: fields) s = .ok (d', rest') := by
  cases opens with
  | first hs => simp [placesFrom, hs, hv, hvs, bind, Except.bind, pure, Except.pure]
  | next hs ht => simp [placesFrom, hs, ht, hc, hv, hvs, bind, Except.bind, pure, Except.pure]

theorem placesFrom_reads (places : Places fields d vs d') (writes : List.Forall₂ Writes vs items)
    (hn : s.length ≤ n) (spaced : Spaced (separated [']'] first items ++ more) s) :
    ∃ rest, placesFrom n first d fields s = .ok (d', rest) ∧ Spaced more rest ∧
      rest.length < s.length := by
  induction places generalizing first s items with
  | @nil fields d =>
    cases writes
    obtain ⟨rest, hs, hr, hl⟩ := Spaced.skipBlank (by decide) spaced
    exact ⟨rest, by cases fields <;> simp [placesFrom, hs], hr, by omega⟩
  | item reads _ ih =>
    obtain _ | @⟨_, ts, _, items, written, writes⟩ := writes
    simp only [separated, List.append_assoc] at spaced
    have ends := ends_separated ']' (by simp) items more
    obtain ⟨c, u, rest, opens, hc, hv, spaced, hl⟩ :=
      Spaced.opens_value reads written ends hn spaced
    obtain ⟨left, hvs, spaced, hl'⟩ := ih writes (by omega) spaced
    exact ⟨left, placesFrom_of_item opens hc hv hvs, spaced, by omega⟩

theorem tuple_reads {blank : α} {required : List String} (places : Places fields ⟨blank, []⟩ vs d)
    (given : required.all d.given.contains) :
    Reads (tuple blank required fields) (.arr vs) d.value := by
  rintro ts ⟨⟩ n s more hn ends spaced
  rename_i items writes
  rw [arrayTokens, List.cons_append] at spaced
  obtain ⟨rest, hs, spaced, hl⟩ := Spaced.skipBlank (by decide) spaced
  simp only [List.nil_append, List.length_nil] at hs hl
  obtain ⟨left, hvs, spaced, hl'⟩ := placesFrom_reads (n := n) places writes (by omega) spaced
  refine ⟨left, ?_, spaced, by omega⟩
  simp [tuple, value, hs, hvs, Draft.finish, given, bind, Except.bind, pure, Except.pure]

theorem stringPair_reads (p : String × String) : Reads stringPair (.strs [p.1, p.2]) p :=
  tuple_reads (.item (Field.of_reads "first" _ (string_reads p.1))
    (.item (Field.of_reads "second" _ (string_reads p.2)) .nil)) rfl

end AppSurface.Json
