import AppSurface.Java.Declaration
import AppSurface.Proofs.TokenPlaces

namespace AppSurface.Java

variable {lo mid hi : Nat}

namespace TokenTree

def place (t : TokenTree) : Place := ⟨t.first.first, t.last.stop⟩

/-- What a tree encloses stands between its brackets. A bracket that is not closed before the end of
the text is closed with the last token, which then stands inside as well. -/
inductive Nested : TokenTree → Prop
  | leaf (t : Token) : Nested (.leaf t)
  | group {bracket : Bracket} {first last : Token} {inner : List TokenTree} :
    first.first < first.stop → InOrder first.stop (inner.map place) last.stop →
      (∀ t ∈ inner, Nested t) → Nested (.group bracket first last inner)

abbrev Placed : Nat → List TokenTree → Nat → Prop := Arranged place Nested

/-- Everything read so far ends at `hi` or earlier, and an open bracket stands behind what was
finished outside of it. -/
inductive Progress.UpTo : Progress → Nat → Prop
  | outside {trees : List TokenTree} {hi : Nat} : Placed 0 trees.reverse hi → UpTo ⟨[], trees⟩ hi
  | inside {o : Open} {path : List Open} {trees : List TokenTree} {mid hi : Nat} :
    UpTo ⟨path, trees⟩ mid → mid ≤ o.first.first → o.first.first < o.first.stop →
      Placed o.first.stop o.trees.reverse hi → UpTo ⟨o :: path, trees⟩ hi

namespace Progress

variable {p : Progress} {t last : Token} {ts : List Token}

theorem UpTo.mono (h : p.UpTo lo) (hle : lo ≤ hi) : p.UpTo hi := by
  cases h with
  | outside placed => exact .outside (placed.mono (Nat.le_refl _) hle)
  | inside outer behind open_ placed =>
    exact .inside outer behind open_ (placed.mono (Nat.le_refl _) hle)

theorem UpTo.add {x : TokenTree} (h : p.UpTo hi) (hlo : hi ≤ x.place.first)
    (hx : x.place.first < x.place.stop) (nested : x.Nested) : (p.add x).UpTo x.place.stop := by
  have alone : Placed hi [x] x.place.stop := .single hlo hx nested
  cases h with
  | outside placed =>
    refine .outside ?_
    rw [List.reverse_cons]
    exact placed.append alone
  | inside outer behind open_ placed =>
    refine .inside outer behind open_ ?_
    rw [List.reverse_cons]
    exact placed.append alone

theorem path_add (x : TokenTree) : (p.add x).path.length = p.path.length := by
  unfold add
  split
  next h => rw [h]
  next h => rw [h, List.length_cons, List.length_cons]

/-- The innermost open bracket is closed with a token that ends behind everything read. -/
theorem UpTo.close {o : Open} {path : List Open} {trees : List TokenTree}
    (h : UpTo ⟨o :: path, trees⟩ hi) (hle : hi ≤ last.stop) :
    (Progress.close ⟨o :: path, trees⟩ last).UpTo last.stop := by
  cases h with
  | inside outer behind open_ placed =>
    have inner := placed.mono (Nat.le_refl _) hle
    refine outer.add (x := .group o.bracket o.first last o.trees.reverse) behind ?_
      (.group open_ inner.order inner.good)
    exact Nat.lt_of_lt_of_le open_ inner.order.le

theorem UpTo.step (h : p.UpTo lo) (hlo : lo ≤ t.first) (ht : t.first < t.stop) :
    (p.step t).UpTo t.stop := by
  have leaf : (p.add (.leaf t)).UpTo t.stop := h.add (x := .leaf t) hlo ht (.leaf t)
  unfold Progress.step
  split
  next b _ => exact .inside h hlo ht (.nil (Nat.le_refl _))
  next =>
    split
    · obtain ⟨path, trees⟩ := p
      cases path with
      | nil => exact leaf
      | cons o path => exact h.close (by omega)
    · exact leaf

/-- The text read ends with the last token. -/
theorem UpTo.steps (h : p.UpTo lo) (order : InOrder lo (ts.map Token.place) hi) :
    (ts.foldl Progress.step p).UpTo ((ts.getLast?.map (·.stop)).getD lo) := by
  induction ts generalizing p lo with
  | nil => exact h
  | cons t ts ih =>
    obtain ⟨hlo, ht, rest⟩ := order.of_cons
    have := ih (h.step hlo ht) rest
    rw [List.getLast?_cons]
    cases hl : ts.getLast? with
    | none =>
      rw [hl] at this
      exact this
    | some last =>
      rw [hl] at this
      exact this

theorem UpTo.placed (h : p.UpTo hi) : Placed 0 p.outside.reverse hi := by
  induction h with
  | outside placed => exact placed
  | inside _ behind open_ placed ih =>
    have := placed.order.le
    exact ih.mono (Nat.le_refl _) (by omega)

/-- As many brackets are closed with the last token as were left open. -/
theorem UpTo.closeAll {open_ : List Open} (h : p.UpTo last.stop)
    (hl : open_.length = p.path.length) :
    Placed 0 (open_.foldl (fun (p : Progress) _ => p.close last) p).outside.reverse last.stop := by
  induction open_ generalizing p with
  | nil => exact h.placed
  | cons _ open_ ih =>
    obtain ⟨path, trees⟩ := p
    cases path with
    | nil => cases hl
    | cons o path =>
      have fewer := path_add (p := ⟨path, trees⟩) (.group o.bracket o.first last o.trees.reverse)
      exact ih (h.close (Nat.le_refl _)) ((Nat.succ.inj hl).trans fewer.symm)

end Progress

theorem ofTokens_placed {ts : List Token} (order : InOrder 0 (ts.map Token.place) hi) :
    Placed 0 (ofTokens ts) hi := by
  have start : Progress.UpTo ⟨[], []⟩ 0 := .outside (.nil (Nat.le_refl _))
  have read := start.steps order
  unfold ofTokens
  cases hl : ts.getLast? with
  | none => exact .nil (Nat.zero_le _)
  | some last =>
    rw [hl] at read
    have inside := (order.of_getLast? (p := last.place) (by rw [List.getLast?_map, hl]; rfl)).2
    exact (Progress.UpTo.closeAll read rfl).mono (Nat.le_refl _) inside

end TokenTree

namespace SyntaxNode

variable {n name body : SyntaxNode} {rest : List SyntaxNode}

/-- The kinds of nodes that are neither types, methods nor fields. -/
def plainKinds : List String :=
  ["_type", "annotation_type_body", "class_body", "constant_declaration", "enum_body",
    "enum_body_declarations", "field_declaration", "identifier", "interface_body",
    "package_declaration", "program", "scoped_identifier"]

theorem kind_mem_plainKinds (b : Body) : b.kind ∈ plainKinds := by
  cases b <;> simp [Body.kind, plainKinds]

theorem complete_of_plain (h : n.kind ∈ plainKinds) : n.Complete := by
  have other : ¬(n.IsMethod ∨ n.kind = "variable_declarator") ∧ ¬n.IsType := by
    simp only [plainKinds, List.mem_cons, List.not_mem_nil, or_false] at h
    rcases h with h | h | h | h | h | h | h | h | h | h | h | h <;> simp [IsMethod, IsType, h]
  exact ⟨fun hn => absurd hn other.1, fun hn => absurd hn other.2⟩

theorem complete_of_name (hc : n.children = name :: rest) (hf : name.field = some "name")
    (h : ¬n.IsType) : n.Complete := by
  refine ⟨fun _ => ⟨name, ?_⟩, fun hn => absurd hn h⟩
  rw [child?, hc, List.find?_cons_of_pos (by rw [hf]; rfl)]

theorem complete_of_body (hc : n.children = [name, body]) (hf : name.field = some "name")
    (hb : body.field = some "body") (order : name.stop ≤ body.first) : n.Complete := by
  have hn : n.child? "name" = some name := by
    rw [child?, hc, List.find?_cons_of_pos (by rw [hf]; rfl)]
  refine ⟨fun _ => ⟨name, hn⟩, fun _ => ⟨name, body, hn, ?_, order⟩⟩
  rw [child?, hc, List.find?_cons_of_neg (by rw [hf]; decide),
    List.find?_cons_of_pos (by rw [hb]; rfl)]

end SyntaxNode

variable {held ts : List TokenTree} {t : Token}

/-- A declaration starts with the first tree held, or with the token behind the trees. -/
theorem startOf_placed (h : TokenTree.Placed lo ts mid) (behind : mid ≤ t.first) :
    lo ≤ startOf ts t ∧ TokenTree.Placed (startOf ts t) ts t.first := by
  cases ts with
  | nil => exact ⟨Nat.le_trans h.order.le behind, .nil (Nat.le_refl _)⟩
  | cons x ts => exact ⟨h.of_cons.1, h.of_head.mono (Nat.le_refl _) behind⟩

/-- Trees behind a token end where the last of them ends. -/
theorem stopOf_placed (h : TokenTree.Placed t.stop ts hi) :
    TokenTree.Placed t.stop ts (stopOf ts t) ∧ stopOf ts t ≤ hi := by
  unfold stopOf
  cases hl : ts.getLast? with
  | none =>
    obtain rfl := List.getLast?_eq_none_iff.mp hl
    exact ⟨.nil (Nat.le_refl _), h.order.le⟩
  | some x =>
    obtain ⟨order, hle⟩ := h.order.of_getLast? (p := x.place) (by rw [List.getLast?_map, hl]; rfl)
    exact ⟨⟨order, h.good⟩, hle⟩

theorem nameNode_placed (hlo : lo ≤ t.first) (ht : t.first < t.stop) (hhi : t.stop ≤ hi) :
    SyntaxNode.Placed lo [t.nameNode] hi := by
  have complete : t.nameNode.Complete :=
    SyntaxNode.complete_of_plain (by simp [SyntaxNode.plainKinds, Token.nameNode])
  have good : t.nameNode.WellFormed := .of_placed (.nil (Nat.le_of_lt ht)) complete
  exact (Arranged.single (x := t.nameNode) hlo ht good).mono (Nat.le_refl _) hhi

/-- A node stands where its trees do. -/
theorem nodeOf_placed {kind : String} {field : Option String} {children : List SyntaxNode}
    (h : TokenTree.Placed lo ts hi)
    (inside : ∀ first stop, TokenTree.Placed first ts stop → SyntaxNode.Placed first children stop)
    (complete : ∀ first stop, (SyntaxNode.mk kind field first stop children).Complete) :
    SyntaxNode.Placed lo (nodeOf kind field children ts).toList hi := by
  unfold nodeOf
  split
  next x y first last =>
    obtain ⟨xs, rfl⟩ := List.head?_eq_some_iff.mp first
    obtain ⟨order, hhi⟩ := h.order.of_getLast? (p := y.place) (by rw [List.getLast?_map, last]; rfl)
    have own : TokenTree.Placed x.place.first (x :: xs) y.place.stop :=
      Arranged.of_head ⟨order, h.good⟩
    have long : x.place.first < y.place.stop := by
      obtain ⟨-, hx, -, rest⟩ := own.of_cons
      exact Nat.lt_of_lt_of_le hx rest.order.le
    have good : SyntaxNode.WellFormed ⟨kind, field, x.first.first, y.last.stop, children⟩ :=
      .of_placed (inside _ _ own) (complete _ _)
    exact (Arranged.single (x := SyntaxNode.mk kind field x.first.first y.last.stop children)
      h.of_cons.1 long good).mono (Nat.le_refl _) hhi
  next => exact .nil h.order.le

theorem declarator?_placed (h : TokenTree.Placed lo ts hi) :
    SyntaxNode.Placed lo (declarator? ts).toList hi := by
  unfold declarator?
  split
  next u us =>
    refine nodeOf_placed h ?_ ?_
    · intro first stop placed
      obtain ⟨hlo, hu, -, rest⟩ := placed.of_cons
      exact nameNode_placed hlo hu rest.order.le
    · exact fun _ _ => SyntaxNode.complete_of_name rfl rfl (by simp [SyntaxNode.IsType])
  next => exact .nil h.order.le

theorem declarators_placed {runs : List (List TokenTree)} (h : TokenTree.Placed lo ts mid)
    (later : SyntaxNode.Placed mid (runs.filterMap declarator?) hi) :
    SyntaxNode.Placed lo ((ts :: runs).filterMap declarator?) hi := by
  have all := (declarator?_placed h).append later
  rw [List.filterMap_cons]
  split
  next none =>
    rw [none] at all
    exact all
  next some =>
    rw [some] at all
    exact all

/-- The fields of a declaration stand one behind the other where its trees stand. -/
theorem splitFields_placed (r : FieldReading) (before : TokenTree.Placed lo held.reverse mid)
    (behind : TokenTree.Placed mid ts hi) :
    SyntaxNode.Placed lo ((splitFields r held ts).filterMap declarator?) hi := by
  induction ts generalizing r held lo mid with
  | nil =>
    exact declarators_placed (before.mono (Nat.le_refl _) behind.order.le) (.nil (Nat.le_refl _))
  | cons t ts ih =>
    obtain ⟨hlo, ht, nested, rest⟩ := behind.of_cons
    unfold splitFields
    split
    next r' _ =>
      have grown : TokenTree.Placed lo (t :: held).reverse t.place.stop := by
        rw [List.reverse_cons]
        exact before.append (.single hlo ht nested)
      exact ih r' grown rest
    next =>
      have none : TokenTree.Placed t.place.stop [].reverse t.place.stop := .nil (Nat.le_refl _)
      have later := ih .name none rest
      have ended := before.mono (Nat.le_refl _) (Nat.le_trans hlo (Nat.le_of_lt ht))
      exact declarators_placed ended later

theorem dropModifiers_suffix (r : ModifierReading) (ts : List TokenTree) :
    dropModifiers r ts <:+ ts := by
  induction ts generalizing r with
  | nil => exact List.suffix_rfl
  | cons t ts ih =>
    unfold dropModifiers
    split
    · exact (ih _).trans (List.suffix_cons t ts)
    · exact List.suffix_rfl

theorem dropAngles_suffix (depth : Nat) (ts : List TokenTree) : dropAngles depth ts <:+ ts := by
  induction ts generalizing depth with
  | nil => exact List.suffix_rfl
  | cons t ts ih =>
    have dropped : ∀ depth, dropAngles depth ts <:+ t :: ts :=
      fun depth => (ih depth).trans (List.suffix_cons t ts)
    cases t with
    | leaf u =>
      unfold dropAngles
      split
      · exact dropped _
      split
      · exact List.suffix_rfl
      split
      · exact dropped _
      · exact dropped _
    | group b first last inner =>
      unfold dropAngles
      split
      · exact List.suffix_rfl
      · exact dropped _

/-- A declaration is its type, its name and what stands behind that. -/
theorem splitName_eq {r : TypeReading} {complete : Bool} {type behind : List TokenTree}
    {name : Token} (h : splitName r complete held ts = some (type, name, behind)) :
    held.reverse ++ ts = type ++ .leaf name :: behind := by
  induction ts generalizing r complete held with
  | nil => cases h
  | cons t ts ih =>
    unfold splitName at h
    split at h
    next name' named =>
      cases h
      have leaf : t = .leaf name := by
        unfold TypeReading.name? at named
        split at named
        · split at named
          · rw [Option.some.inj named]
          · cases named
        · split at named
          · rw [Option.some.inj named]
          · cases named
        · cases named
      rw [leaf]
    next =>
      split at h
      · rw [← ih h, List.reverse_cons, List.append_assoc]
        rfl
      · cases h

/-- The kind and the children of a declaration that stands between two positions. -/
structure Fits (lo hi : Nat) (m : String × List SyntaxNode) : Prop where
  placed : SyntaxNode.Placed lo m.2 hi
  complete : ∀ field first stop, (SyntaxNode.mk m.1 field first stop m.2).Complete

theorem fits_of_name {kind : String} (hlo : lo ≤ t.first) (ht : t.first < t.stop)
    (hhi : t.stop ≤ hi) (h : kind ∈ ["constructor_declaration", "compact_constructor_declaration",
      "method_declaration", "annotation_type_element_declaration"]) :
    Fits lo hi (kind, [t.nameNode]) := by
  refine ⟨nameNode_placed hlo ht hhi, ?_⟩
  intro field first stop
  refine SyntaxNode.complete_of_name rfl rfl ?_
  simp only [List.mem_cons, List.not_mem_nil, or_false] at h
  rcases h with rfl | rfl | rfl | rfl <;> simp [SyntaxNode.IsType]

theorem packageMember?_fits {m : String × List SyntaxNode} (h : TokenTree.Placed lo ts hi)
    (hm : packageMember? ts = some m) : Fits lo hi m := by
  unfold packageMember? at hm
  split at hm
  next u name =>
    split at hm
    · cases hm
      obtain ⟨hlo, hu, -, rest⟩ := h.of_cons
      have before : lo ≤ u.stop := Nat.le_trans hlo (Nat.le_of_lt hu)
      refine ⟨(nodeOf_placed rest ?_ ?_).mono before (Nat.le_refl _), ?_⟩
      · exact fun _ _ placed => .nil placed.order.le
      · intro first stop
        split <;> exact SyntaxNode.complete_of_plain (by simp [SyntaxNode.plainKinds])
      · intro field first stop
        exact SyntaxNode.complete_of_plain (by simp [SyntaxNode.plainKinds])
    · cases hm
  next => cases hm

theorem typedMember?_fits {body : Body} {m : String × List SyntaxNode}
    (h : TokenTree.Placed lo ts hi) (hm : typedMember? body ts = some m) : Fits lo hi m := by
  unfold typedMember? at hm
  obtain ⟨⟨type, name, behind⟩, found, rfl⟩ := Option.map_eq_some_iff.mp hm
  have eq : ts = type ++ .leaf name :: behind := splitName_eq found
  rw [eq] at h
  obtain ⟨mid, hType, hName⟩ := h.of_append
  obtain ⟨hmid, long, -, rest⟩ := hName.of_cons
  have hlo : lo ≤ name.first := Nat.le_trans hType.order.le hmid
  have hhi : name.stop ≤ hi := rest.order.le
  dsimp only
  split
  · exact fits_of_name hlo long hhi (by simp)
  · exact fits_of_name hlo long hhi (by simp)
  · refine ⟨?_, ?_⟩
    · have start : TokenTree.Placed mid [].reverse mid := .nil (Nat.le_refl _)
      have fields := splitFields_placed .name start hName
      refine (nodeOf_placed hType ?_ ?_).append fields
      · exact fun _ _ placed => .nil placed.order.le
      · intro first stop
        exact SyntaxNode.complete_of_plain (by simp [SyntaxNode.plainKinds])
    · intro field first stop
      split <;> exact SyntaxNode.complete_of_plain (by simp [SyntaxNode.plainKinds])

theorem member?_fits {body : Body} {block : Bool} {m : String × List SyntaxNode}
    (h : TokenTree.Placed lo ts hi) (hm : member? body block ts = some m) : Fits lo hi m := by
  unfold member? at hm
  split at hm
  · exact packageMember?_fits h hm
  split at hm
  next u behind trees =>
    have part : TokenTree.Placed lo (.leaf u :: behind) hi := by
      rw [← trees]
      exact h.sublist ((dropModifiers_suffix _ _).trans (dropAngles_suffix _ _)).sublist
    split at hm
    next kind untyped =>
      cases hm
      obtain ⟨hlo, hu, -, rest⟩ := part.of_cons
      refine fits_of_name hlo hu rest.order.le ?_
      unfold untypedKind? at untyped
      split at untyped
      · cases untyped
        simp
      · split at untyped
        · cases untyped
          simp
        · cases untyped
      · cases untyped
    next => exact typedMember?_fits part hm
  next => cases hm

/-- The declaration that ends with a token or a block, if the trees in front of that are one. -/
theorem memberNode?_placed (body : Body) (block : Bool) {stop : Nat}
    (h : TokenTree.Placed lo ts mid) (behind : mid ≤ t.first) (ht : t.first < stop) :
    SyntaxNode.Placed lo (memberNode? body block ts t stop).toList stop := by
  obtain ⟨hlo, placed⟩ := startOf_placed h behind
  have long : startOf ts t < stop := Nat.lt_of_le_of_lt placed.order.le ht
  unfold memberNode?
  cases hm : member? body block (dropModifiers .modifiers ts) with
  | none => exact .nil (by omega)
  | some m =>
    have fits := member?_fits (placed.sublist (dropModifiers_suffix _ _).sublist) hm
    have inside := fits.placed.mono (Nat.le_refl _) (Nat.le_of_lt ht)
    have good : SyntaxNode.WellFormed ⟨m.1, none, startOf ts t, stop, m.2⟩ :=
      .of_placed inside (fits.complete _ _ _)
    exact Arranged.single (x := SyntaxNode.mk m.1 none (startOf ts t) stop m.2) hlo long good

theorem typeHead?_name {head : TypeHead} (h : typeHead? ts = some head) : .leaf head.name ∈ ts := by
  unfold typeHead? at h
  split at h
  next t u ts =>
    split at h
    · cases h
      simp
    split at h
    · cases h
      simp
    split at h
    · cases h
      simp
    split at h
    · cases h
      simp
    split at h
    · split at h
      · cases h
        simp
      · cases h
    · cases h
  next => cases h

theorem memberBlock_placed {members : List SyntaxNode} (ht : t.first < t.stop)
    (h : SyntaxNode.Placed t.stop members hi) :
    SyntaxNode.Placed t.first [⟨"enum_body_declarations", none, t.first, hi, members⟩] hi := by
  have complete : SyntaxNode.Complete ⟨"enum_body_declarations", none, t.first, hi, members⟩ :=
    SyntaxNode.complete_of_plain (by simp [SyntaxNode.plainKinds])
  have good : SyntaxNode.WellFormed ⟨"enum_body_declarations", none, t.first, hi, members⟩ :=
    .of_placed (h.mono (Nat.le_of_lt ht) (Nat.le_refl _)) complete
  have long : t.first < hi := Nat.lt_of_lt_of_le ht h.order.le
  exact Arranged.single (x := SyntaxNode.mk "enum_body_declarations" none t.first hi members)
    (Nat.le_refl _) long good

/-- A type stands from the first tree in front of its body up to the end of that. -/
theorem typeNode_placed {head : TypeHead} {first last : Token} {inner : List SyntaxNode}
    (before : TokenTree.Placed lo ts mid) (behind : mid ≤ first.first)
    (found : typeHead? (dropModifiers .modifiers ts) = some head) (open_ : first.first < first.stop)
    (body : SyntaxNode.Placed first.stop inner last.stop) :
    SyntaxNode.Placed lo [⟨head.kind, none, startOf ts first, last.stop,
      [head.name.nameNode, ⟨head.body.kind, some "body", first.first, last.stop, inner⟩]⟩]
      last.stop := by
  obtain ⟨hlo, all⟩ := startOf_placed before behind
  have declared := all.sublist (dropModifiers_suffix .modifiers ts).sublist
  obtain ⟨hname, named, order, -⟩ := declared.of_mem (typeHead?_name found)
  have long : first.first < last.stop := Nat.lt_of_lt_of_le open_ body.order.le
  have whole : startOf ts first < last.stop := Nat.lt_of_le_of_lt all.order.le long
  have plain : SyntaxNode.Complete
      ⟨head.body.kind, some "body", first.first, last.stop, inner⟩ :=
    SyntaxNode.complete_of_plain (SyntaxNode.kind_mem_plainKinds head.body)
  have good : SyntaxNode.WellFormed ⟨head.body.kind, some "body", first.first, last.stop, inner⟩ :=
    .of_placed (body.mono (Nat.le_of_lt open_) (Nat.le_refl _)) plain
  have children := (nameNode_placed hname named order).append (Arranged.single
    (x := SyntaxNode.mk head.body.kind (some "body") first.first last.stop inner) (Nat.le_refl _)
    long good)
  have complete := SyntaxNode.complete_of_body
    (n := ⟨head.kind, none, startOf ts first, last.stop,
      [head.name.nameNode, ⟨head.body.kind, some "body", first.first, last.stop, inner⟩]⟩)
    rfl rfl rfl order
  exact Arranged.single (x := SyntaxNode.mk head.kind none (startOf ts first) last.stop
    [head.name.nameNode, ⟨head.body.kind, some "body", first.first, last.stop, inner⟩])
    hlo whole (.of_placed children complete)

mutual

theorem declarationsIn_placed (body : Body) : ∀ t : TokenTree, t.Nested →
    SyntaxNode.Placed t.first.stop (declarationsIn body t) t.last.stop
  | .leaf _, _ => .nil (Nat.le_refl _)
  | .group _ _ _ inner, .group _ order good =>
    declarationsFrom_placed inner body [] (.nil (Nat.le_refl _)) ⟨order, good⟩

/-- The declarations of a body stand one behind the other where its trees stand. -/
theorem declarationsFrom_placed : ∀ (ts : List TokenTree) (body : Body) (held : List TokenTree)
    {lo mid hi : Nat}, TokenTree.Placed lo held.reverse mid → TokenTree.Placed mid ts hi →
      SyntaxNode.Placed lo (declarationsFrom body held ts) hi
  | [], _, _, _, _, _, before, behind => .nil (Nat.le_trans before.order.le behind.order.le)
  | t :: ts, body, held, lo, mid, hi, before, behind => by
    obtain ⟨hlo, ht, nested, rest⟩ := behind.of_cons
    have grown : SyntaxNode.Placed lo (declarationsFrom body (t :: held) ts) hi := by
      refine declarationsFrom_placed ts body (t :: held) ?_ rest
      rw [List.reverse_cons]
      exact before.append (.single hlo ht nested)
    have fresh : ∀ body, SyntaxNode.Placed t.place.stop (declarationsFrom body [] ts) hi :=
      fun body => declarationsFrom_placed ts body [] (.nil (Nat.le_refl _)) rest
    cases t with
    | leaf u =>
      simp only [declarationsFrom]
      split
      · split
        · obtain ⟨members, hle⟩ := stopOf_placed (t := u) rest
          have inner : SyntaxNode.Placed u.stop (declarationsFrom .ofClass [] ts) (stopOf ts u) :=
            declarationsFrom_placed ts .ofClass [] (.nil (Nat.le_refl _)) members
          have long : u.first < stopOf ts u := Nat.lt_of_lt_of_le ht members.order.le
          have block := memberBlock_placed ht inner
          exact block.mono (Nat.le_trans before.order.le hlo) hle
        · exact (memberNode?_placed _ _ before hlo ht).append (fresh body)
      · exact grown
    | group bracket first last inner =>
      simp only [declarationsFrom]
      split
      · exact grown
      · split
        next head found =>
          have body := declarationsIn_placed head.body (.group .curly first last inner) nested
          have open_ : first.first < first.stop := by
            cases nested with
            | group open_ _ _ => exact open_
          exact (typeNode_placed before hlo found open_ body).append (fresh _)
        next =>
          split
          · exact grown
          · exact (memberNode?_placed _ _ before hlo ht).append (fresh body)
      · exact grown

end

theorem syntaxTree_wellFormed (source : List Char) : (syntaxTree source).WellFormed := by
  have placed : SyntaxNode.Placed 0 (syntaxTree source).children source.length :=
    declarationsFrom_placed _ _ [] (.nil (Nat.le_refl _))
      (TokenTree.ofTokens_placed (tokens_inOrder source))
  exact .of_placed placed (SyntaxNode.complete_of_plain (SyntaxNode.kind_mem_plainKinds .file))

end AppSurface.Java
