import AppSurface.Config
import AppSurface.Proofs.JsonReading
import Mathlib.Data.List.Permutation

namespace AppSurface

open Json

variable {α β : Type} {c : Config} {k : String} {v w : Value} {text : String}

namespace Json

/-- The reader takes `a` from the value, in whatever order the members of objects stand. -/
def ReadsText (read : Reader α) (v : Value) (a : α) : Prop := ∀ w, v.Same w → Reads read w a

theorem string_readsText (k : String) : ReadsText string (.str k) k := by
  rintro w ⟨⟩
  exact string_reads k

theorem natural_readsText {n : Nat} (fits : n < UInt64.size) : ReadsText natural (.num n) n := by
  rintro w ⟨⟩
  exact natural_reads fits

theorem bool_readsText (b : Bool) : ReadsText bool (.bool b) b := by
  rintro w ⟨⟩
  exact bool_reads b

theorem Value.Same.exists_items {vs : List Value} (same : (Value.arr vs).Same w) :
    ∃ ws, w = .arr ws ∧ List.Forall₂ Value.Same vs ws := by
  cases same with
  | refl => exact ⟨vs, rfl, List.forall₂_same.2 fun v _ => .refl v⟩
  | arr same => exact ⟨_, rfl, same⟩

theorem Value.Same.exists_members {ms : List (String × Value)} (same : (Value.obj ms).Same w) :
    ∃ ns ms', w = .obj ms' ∧ List.Forall₂ SameMember ms ns ∧ ns.Perm ms' := by
  cases same with
  | refl => exact ⟨ms, ms, rfl, List.forall₂_same.2 fun m _ => .mk (.refl m.2), .refl ms⟩
  | obj same perm => exact ⟨_, _, rfl, same, perm⟩

theorem list_readsText {item : Reader α} {write : α → Value}
    (reads : ∀ a, ReadsText item (write a) a) (as : List α) :
    ReadsText (list item) (.arr (as.map write)) as := by
  intro w same
  obtain ⟨ws, rfl, alike⟩ := same.exists_items
  have items := (List.forall₂_map_left_iff.1 alike).imp fun a w same => reads a w same
  exact list_reads items.flip

end Json

theorem Confirmer.readsText (c : Confirmer) : ReadsText Confirmer.reader c.toJson c := by
  intro w same
  obtain ⟨ns, ms, rfl, same, perm⟩ := same.exists_members
  obtain _ | @⟨_, _, _, _, ⟨⟨⟩⟩, _ | ⟨⟨⟨⟩⟩, ⟨⟩⟩⟩ := same
  rcases List.pair_perm.1 perm with rfl | rfl
  · refine record_reads (d := ⟨c, ["pattern", "method"]⟩) ?_ rfl
    refine .field rfl (by simp) (Field.of_reads _ _ (string_reads c.method)) ?_
    exact .field rfl (by simp) (Field.of_reads _ _ (string_reads c.pattern)) .nil
  · refine record_reads (d := ⟨c, ["method", "pattern"]⟩) ?_ rfl
    refine .field rfl (by simp) (Field.of_reads _ _ (string_reads c.pattern)) ?_
    exact .field rfl (by simp) (Field.of_reads _ _ (string_reads c.method)) .nil

namespace Config

/-- The settings that are read into 64 bits do. -/
structure Fits (c : Config) : Prop where
  maxDepth : c.maxDepth < UInt64.size
  suggestionLimit : c.suggestionLimit < UInt64.size
  maxFileSize : c.maxFileSize < UInt64.size

/-- The settings of `c` that are given, and the default of the others. -/
def overlay (c : Config) (given : List String) : Config where
  inputPath := if "input_path" ∈ given then c.inputPath else default.inputPath
  maxDepth := if "max_depth" ∈ given then c.maxDepth else default.maxDepth
  suggestionLimit :=
    if "suggestion_limit" ∈ given then c.suggestionLimit else default.suggestionLimit
  parallel := if "parallel" ∈ given then c.parallel else default.parallel
  excludePatterns :=
    if "exclude_patterns" ∈ given then c.excludePatterns else default.excludePatterns
  maxFileSize := if "max_file_size" ∈ given then c.maxFileSize else default.maxFileSize
  confirmers := if "confirmers" ∈ given then c.confirmers else default.confirmers
  verbose := if "verbose" ∈ given then c.verbose else default.verbose
  quiet := if "quiet" ∈ given then c.quiet else default.quiet

theorem overlay_nil (c : Config) : c.overlay [] = unset := by simp [overlay, unset, default]

/-- Where the member is given, the field puts the setting of `c` in its place. -/
structure Sets (c : Config) (m : String × Value) (f : Json.Field Config) : Prop where
  key : f.key = m.1
  takes : ∀ ts, m.2.IsText ts → ∃ change, Takes f.read ts change ∧
    ∀ given, change (c.overlay given) = c.overlay (m.1 :: given)

theorem Sets.of {read : Reader β} {b : β} {set : β → Config → Config}
    (reads : ReadsText read v b)
    (puts : ∀ given, set b (c.overlay given) = c.overlay (k :: given)) :
    Sets c (k, v) (.of k read set) where
  key := rfl
  takes ts written := by
    obtain ⟨w, same, writes⟩ := written
    exact ⟨set b, Field.of_takes k set (reads w same ts writes), puts⟩

theorem sets_fields (fits : c.Fits) :
    ∃ ms, c.toJson = .obj ms ∧ List.Forall₂ (Sets c) ms fields := by
  refine ⟨_, rfl, ?_⟩
  refine .cons (.of (string_readsText _) fun given => by simp [overlay]) ?_
  refine .cons (.of (natural_readsText fits.maxDepth) fun given => by simp [overlay]) ?_
  refine .cons (.of (natural_readsText fits.suggestionLimit) fun given => by simp [overlay]) ?_
  refine .cons (.of (bool_readsText _) fun given => by simp [overlay]) ?_
  refine .cons (.of (list_readsText string_readsText _) fun given => by simp [overlay]) ?_
  refine .cons (.of (natural_readsText fits.maxFileSize) fun given => by simp [overlay]) ?_
  refine .cons (.of (list_readsText Confirmer.readsText _) fun given => by simp [overlay]) ?_
  refine .cons (.of (bool_readsText _) fun given => by simp [overlay]) ?_
  exact .cons (.of (bool_readsText _) fun given => by simp [overlay]) .nil

theorem find?_of_lookup {fields : List (Json.Field Config)} {ms : List (String × Value)}
    (sets : List.Forall₂ (Sets c) ms fields) (k : String) :
    (∀ v, ms.lookup k = some v →
      ∃ f, (fields.find? fun f => f.key == k) = some f ∧ Sets c (k, v) f) ∧
    (ms.lookup k = none → (fields.find? fun f => f.key == k) = none) := by
  induction sets with
  | nil => simp
  | @cons m f ms fields first _ ih =>
    obtain ⟨key, v⟩ := m
    have same : f.key = key := first.key
    by_cases own : key = k
    · subst own
      rw [List.lookup_cons_self, List.find?_cons_of_pos (by simp [same])]
      exact ⟨fun w hw => ⟨f, rfl, Option.some.inj hw ▸ first⟩, nofun⟩
    · have other : (k == key) = false := beq_eq_false_iff_ne.2 (Ne.symm own)
      rw [List.lookup_cons, other, List.find?_cons_of_neg (by simpa [same] using own)]
      exact ih

theorem find?_fields (fits : c.Fits) (k : String) :
    (∀ v, c.toJson.member? k = some v →
      ∃ f, (fields.find? fun f => f.key == k) = some f ∧ Sets c (k, v) f) ∧
    (c.toJson.member? k = none → (fields.find? fun f => f.key == k) = none) := by
  obtain ⟨ms, members, sets⟩ := sets_fields fits
  rw [members]
  exact find?_of_lookup sets k

/-- The members of an object over which `c` is read: the settings, each at most once and as `c` has
it, except some that `c` has by default, and any members that are no settings. -/
structure Overlays (c : Config) (ms : List Member) : Prop where
  once : ms.Pairwise fun m m' => (c.toJson.member? m.key).isSome → m.key ≠ m'.key
  given : ∀ m ∈ ms, ∀ v, c.toJson.member? m.key = some v → v.IsText m.value
  other : ∀ m ∈ ms, c.toJson.member? m.key = none → Written m.value
  absent : ∀ k, (c.toJson.member? k).isSome → (∀ m ∈ ms, m.key ≠ k) →
    c.toJson.member? k = default.toJson.member? k

variable {ms : List Member} {given : List String}

theorem exists_fillsWritten (given : List String) (fits : c.Fits)
    (new : ∀ m ∈ ms, (c.toJson.member? m.key).isSome → m.key ∉ given)
    (once : ms.Pairwise fun m m' => (c.toJson.member? m.key).isSome → m.key ≠ m'.key)
    (written : ∀ m ∈ ms, ∀ v, c.toJson.member? m.key = some v → v.IsText m.value)
    (other : ∀ m ∈ ms, c.toJson.member? m.key = none → Written m.value) :
    ∃ all, FillsWritten fields ⟨c.overlay given, given⟩ ms ⟨c.overlay all, all⟩ ∧ given ⊆ all ∧
      ∀ m ∈ ms, (c.toJson.member? m.key).isSome → m.key ∈ all := by
  -- what is read so far is the overlay of the keys so far, whatever their order
  induction ms generalizing given with
  | nil => exact ⟨given, .nil, List.Subset.refl _, by simp⟩
  | cons m ms ih =>
    simp only [List.forall_mem_cons] at new written other ⊢
    obtain ⟨apart, once⟩ := List.pairwise_cons.1 once
    obtain ⟨field, noField⟩ := find?_fields fits m.key
    cases known : c.toJson.member? m.key with
    | none =>
      obtain ⟨all, fills, more, mem⟩ := ih given new.2 once written.2 other.2
      exact ⟨all, .other (noField known) (other.1 known) fills, more, nofun, mem⟩
    | some v =>
      obtain ⟨f, found, sets⟩ := field v known
      obtain ⟨change, takes, puts⟩ := sets.takes _ (written.1 v known)
      have newer : ∀ m' ∈ ms, (c.toJson.member? m'.key).isSome → m'.key ∉ m.key :: given := by
        intro m' hm' known'
        have old := new.2 m' hm' known'
        have others := apart m' hm' (by simp [known])
        simp [old, others.symm]
      obtain ⟨all, fills, more, mem⟩ := ih _ newer once written.2 other.2
      obtain ⟨here, more⟩ := List.cons_subset.1 more
      refine ⟨all, .field found ?_ takes ?_, more, fun _ => here, mem⟩
      · rw [sets.key]
        exact new.1 (by simp [known])
      · rw [Draft.put, puts, sets.key]
        exact fills

theorem ite_of_absent {write : α → Value} (inj : ∀ a b, write a = write b → a = b) {a b : α}
    (absent : k ∉ given → some (write a) = some (write b)) :
    (if k ∈ given then a else b) = a := by
  split
  next => rfl
  next hk => exact (inj a b (Option.some.inj (absent hk))).symm

theorem arr_map_inj {write : α → Value} (inj : ∀ a b, write a = write b → a = b) (as bs : List α)
    (same : Value.arr (as.map write) = .arr (bs.map write)) : as = bs :=
  List.map_injective_iff.2 (fun a b => inj a b) (Value.arr.inj same)

theorem toJson_confirmer_inj (c d : Confirmer) (same : c.toJson = d.toJson) : c = d := by
  obtain ⟨m, p⟩ := c
  obtain ⟨m', p'⟩ := d
  simpa [Confirmer.toJson] using same

theorem overlay_eq
    (absent : ∀ k, (c.toJson.member? k).isSome → k ∉ given →
      c.toJson.member? k = default.toJson.member? k) : c.overlay given = c := by
  have inputPath := ite_of_absent (fun _ _ => Value.str.inj) (absent "input_path" rfl)
  have maxDepth := ite_of_absent (fun _ _ => Value.num.inj) (absent "max_depth" rfl)
  have suggestionLimit := ite_of_absent (fun _ _ => Value.num.inj) (absent "suggestion_limit" rfl)
  have parallel := ite_of_absent (fun _ _ => Value.bool.inj) (absent "parallel" rfl)
  have excludePatterns :=
    ite_of_absent (arr_map_inj fun _ _ => Value.str.inj) (absent "exclude_patterns" rfl)
  have maxFileSize := ite_of_absent (fun _ _ => Value.num.inj) (absent "max_file_size" rfl)
  have confirmers := ite_of_absent (arr_map_inj toJson_confirmer_inj) (absent "confirmers" rfl)
  have verbose := ite_of_absent (fun _ _ => Value.bool.inj) (absent "verbose" rfl)
  have quiet := ite_of_absent (fun _ _ => Value.bool.inj) (absent "quiet" rfl)
  rw [overlay, inputPath, maxDepth, suggestionLimit, parallel, excludePatterns, maxFileSize,
    confirmers, verbose, quiet]

theorem ofJson_of_overlays (fits : c.Fits) (overlays : c.Overlays ms)
    (spaced : Spaced (objectTokens (ms.map (·.tokens))) text.toList) : ofJson text = .ok c := by
  obtain ⟨given, fills, -, mem⟩ := exists_fillsWritten [] fits
    (fun _ _ _ => List.not_mem_nil) overlays.once overlays.given overlays.other
  have whole : c.overlay given = c := by
    refine overlay_eq fun k known hk => overlays.absent k known fun m hm same => hk ?_
    subst same
    exact mem m hm known
  rw [overlay_nil, whole] at fills
  exact decode_of_takes (record_takes fills rfl) spaced

theorem lookup_eq_of_mem {ms : List (String × Value)} {m : String × Value}
    (nodup : (ms.map (·.1)).Nodup) (mem : m ∈ ms) : ms.lookup m.1 = some m.2 := by
  induction ms with
  | nil => cases mem
  | cons m' ms ih =>
    obtain ⟨new, nodup⟩ := List.nodup_cons.1 nodup
    rcases List.mem_cons.1 mem with rfl | mem
    · exact List.lookup_cons_self
    · have other : (m.1 == m'.1) = false :=
        beq_eq_false_iff_ne.2 fun same => new (List.mem_map.2 ⟨m, mem, same⟩)
      rw [List.lookup_cons, other]
      exact ih nodup mem

theorem overlays_written {ms : List (String × Value)} (members : c.toJson = .obj ms) :
    c.Overlays (ms.map Member.of) := by
  have nodup : (ms.map (·.1)).Nodup := by
    obtain rfl := Value.obj.inj members
    simp
  have own : ∀ m ∈ ms, c.toJson.member? m.1 = some m.2 := by
    intro m mem
    rw [members]
    exact lookup_eq_of_mem nodup mem
  refine ⟨?_, ?_, ?_, ?_⟩
  · rw [List.pairwise_map]
    refine (List.pairwise_map.1 nodup).imp ?_
    intro m m' apart _
    exact apart
  · refine List.forall_mem_map.2 fun m mem v hv => ?_
    obtain rfl := Option.some.inj ((own m mem).symm.trans hv)
    exact ⟨m.2, .refl _, writes_tokens m.2⟩
  · refine List.forall_mem_map.2 fun m mem none => ?_
    simp [Member.of, own m mem] at none
  · intro k known absent
    rw [members] at known
    obtain ⟨m, mem, key⟩ := List.lookup_isSome_iff.1 known
    exact absurd (eq_of_beq key).symm (absent (Member.of m) (List.mem_map_of_mem mem))

/-- Any object that gives settings of `c`, each at most once and in any order, leaves out others
only where `c` has the default, and otherwise holds whatever JSON under other keys, is read as `c`.
So are the written forms of `c`, and an object without members is read as the default. -/
theorem ofJson_overlays (fits : c.Fits) :
    (∀ (ms : List Member) (text : String), c.Overlays ms →
        Spaced (objectTokens (ms.map (·.tokens))) text.toList → ofJson text = .ok c) ∧
      ofJson c.toJson.compact = .ok c ∧ ofJson c.toJson.pretty = .ok c ∧
      ∀ text : String, Spaced [['{'], ['}']] text.toList → ofJson text = .ok default := by
  have every {text : String} (spaced : Spaced c.toJson.tokens text.toList) :
      ofJson text = .ok c := by
    obtain ⟨ms, members, -⟩ := sets_fields fits
    refine ofJson_of_overlays fits (overlays_written members) ?_
    rwa [← tokens_obj, ← members]
  refine ⟨fun ms text => ofJson_of_overlays fits, every (spaced_compact _),
    every (spaced_pretty _), fun text spaced => ?_⟩
  have blank : default.Overlays [] := ⟨.nil, nofun, nofun, fun _ _ _ => rfl⟩
  exact ofJson_of_overlays ⟨by decide, by decide, by decide⟩ blank spaced

/-- A depth and a rule, out of order and between members that are no settings. -/
def deeper : Config := { default with maxDepth := 3, confirmers := [⟨"a", "b"⟩] }

/-- A number, and an object with a string that stands for no text. -/
def strange : Member where
  key := "x"
  spelling := ['x']
  spells := .plain ⟨by decide, by decide, by decide⟩ .nil
  value := arrayTokens [[['-', '1', '.', '5', 'e', '3']],
    objectTokens [memberOf ['a'] [quoted ['\\', 'u', 'd', '8', '0', '0']]]]

def deeperMembers : List Member :=
  [strange, .of ("confirmers", .arr [.obj [("pattern", .str "b"), ("method", .str "a")]]), strange,
    .of ("max_depth", .num 3)]

theorem written_strange : Written strange.value := by
  have digits {d : Char} (digit : d.isDigit) : Digits [d] := ⟨by simp, by simpa using digit⟩
  have power : Exponent ('e' :: ([] ++ ['3'])) := .power (by decide) (by decide) (digits rfl)
  have number : IsNumber ('-' :: (['1'] ++ (['.', '5'] ++ ['e', '3']))) :=
    .negative (.digits (by decide) (digits rfl)) (.point (digits rfl)) power
  have lone : Content ('\\' :: 'u' :: (['d', '8', '0', '0'] ++ [])) :=
    .numbered (.mk rfl rfl rfl rfl) .nil
  have key : Content ['a'] := .plain ⟨by decide, by decide, by decide⟩ .nil
  have inner : Written (objectTokens ([(['a'], [quoted ['\\', 'u', 'd', '8', '0', '0']])].map
      fun m => memberOf m.1 m.2)) :=
    .object (List.forall_mem_singleton.2 key) (List.forall_mem_singleton.2 (.string lone))
  exact .array (List.forall_mem_cons.2 ⟨.number number, List.forall_mem_singleton.2 inner⟩)

theorem ofJson_deeper :
    let text := "\n\x7b\"x\":[-1.5e3,\x7b\"a\":\"\\ud800\"\x7d]," ++
      "\"confirmers\":[\x7b\"pattern\":\"b\",\"method\":\"a\"\x7d]," ++
      "\"x\":[-1.5e3,\x7b\"a\":\"\\ud800\"\x7d],\"max_depth\":3\x7d"
    deeper.Fits ∧ deeper.Overlays deeperMembers ∧
      Spaced (objectTokens (deeperMembers.map (·.tokens))) text.toList ∧
      ofJson text = .ok deeper := by
  intro text
  have fits : deeper.Fits := ⟨by decide, by decide, by decide⟩
  have rule : (Value.arr [.obj [("method", .str "a"), ("pattern", .str "b")]]).Same
      (.arr [.obj [("pattern", .str "b"), ("method", .str "a")]]) :=
    .arr (.cons (.obj (.cons (.mk (.refl _)) (.cons (.mk (.refl _)) .nil)) (.swap _ _ _)) .nil)
  have overlays : deeper.Overlays deeperMembers := by
    refine ⟨by decide, ?_, ?_, ?_⟩
    · simp only [deeperMembers, List.forall_mem_cons]
      refine ⟨nofun, ?_, nofun, ?_, nofun⟩
      · rintro v ⟨⟩
        exact ⟨_, rule, writes_tokens _⟩
      · rintro v ⟨⟩
        exact ⟨_, .refl _, writes_tokens _⟩
    · simp only [deeperMembers, List.forall_mem_cons]
      exact ⟨fun _ => written_strange, nofun, fun _ => written_strange, nofun, nofun⟩
    · intro k _ absent
      simp only [deeperMembers, List.forall_mem_cons] at absent
      obtain ⟨-, rules, -, depth, -⟩ := absent
      have rules : (k == "confirmers") = false := beq_eq_false_iff_ne.2 rules.symm
      have depth : (k == "max_depth") = false := beq_eq_false_iff_ne.2 depth.symm
      simp only [toJson, Value.member?, List.lookup_cons, rules, depth]
      rfl
  have spaced : Spaced (objectTokens (deeperMembers.map (·.tokens))) text.toList := by
    have flat : text.toList = '\n' :: (objectTokens (deeperMembers.map (·.tokens))).flatten := by
      simp only [text, String.toList_append]
      repeat rw [String.toList_ofList]
      decide +kernel
    rw [flat]
    exact .blank rfl (spaced_flatten _)
  exact ⟨fits, overlays, spaced, (ofJson_overlays fits).1 _ text overlays spaced⟩

end Config

end AppSurface
