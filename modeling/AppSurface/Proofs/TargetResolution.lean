import AppSurface.Proofs.Signature
import AppSurface.Proofs.SimilarNames

namespace AppSurface

variable {m n : MethodRef} {query : String} {limit : Nat} {seen : List String} {ms : List MethodRef}

namespace MethodRef

theorem methodName_suffix (m : MethodRef) : '.' :: m.methodName.toList <:+ m.signature.toList :=
  m.signature_toList ▸ List.suffix_append _ _

/-- A name behind the last dot of a signature ends it, so that the first of the three conditions is
a case of the second. -/
theorem answers_iff : m.answers query = true ↔
    '.' :: query.toList <:+ m.signature.toList ∨
      '.' ∈ query.toList ∧ query.toList <:+ m.signature.toList := by
  have dot : ("." ++ query).toList = '.' :: query.toList := String.toList_append
  have named : m.methodName = query → '.' :: query.toList <:+ m.signature.toList := by
    rintro rfl
    exact m.methodName_suffix
  simp only [answers, Bool.or_eq_true, Bool.and_eq_true, beq_iff_eq, Text.endsWith_iff, dot,
    List.contains_iff_mem]
  exact or_congr_left (or_iff_right_of_imp named)

theorem answers_iff_of_dotted (h : '.' ∈ query.toList) :
    m.answers query = true ↔ query.toList <:+ m.signature.toList := by
  rw [answers_iff, and_iff_right h]
  exact or_iff_right_of_imp (List.suffix_cons _ _).trans

theorem answers_iff_of_undotted (h : '.' ∉ query.toList) (hm : m.Undotted) :
    m.answers query = true ↔ m.methodName = query := by
  rw [answers_iff, or_iff_left (fun dotted => h dotted.1)]
  constructor
  · rintro ⟨front, whole⟩
    have split : m.signature = String.ofList front ++ "." ++ query := by
      apply String.toList_inj.mp
      rw [toList_dotted, String.toList_ofList, whole]
    rw [← methodPart_signature hm, split, methodPart_append_dot _ _ h]
  · rintro rfl
    exact m.methodName_suffix

theorem answers_methodName (m : MethodRef) : m.answers m.methodName = true :=
  answers_iff.mpr (.inl m.methodName_suffix)

theorem answers_signature (m : MethodRef) : m.answers m.signature = true :=
  (answers_iff_of_dotted (by simp [signature_toList])).mpr (List.suffix_refl _)

end MethodRef

/-- The place of the first method with a signature. -/
def placeOf (signature : String) (ms : List MethodRef) : Nat :=
  ms.findIdx fun n => n.signature == signature

/-- Of the methods with one signature the first is kept, and those kept stand in the order of these
first places. -/
structure FirstOfEach (all kept : List MethodRef) : Prop where
  first : ∀ m ∈ kept, all.find? (fun n => n.signature == m.signature) = some m
  ordered : kept.Pairwise fun m n => placeOf m.signature all < placeOf n.signature all
  distinct : (kept.map (·.signature)).Nodup
  complete : ∀ m ∈ all, m.signature ∈ kept.map (·.signature)

theorem placeOf_cons_of_ne {signature : String} (h : m.signature ≠ signature) :
    placeOf signature (m :: ms) = placeOf signature ms + 1 := by
  rw [placeOf, List.findIdx_cons, beq_false_of_ne h]
  rfl

theorem placeOf_cons_self : placeOf m.signature (m :: ms) = 0 := by
  rw [placeOf, List.findIdx_cons, beq_self_eq_true]
  rfl

section FirstOfSignature

theorem unseen_and_first (h : m ∈ firstOfSignature seen ms) :
    m.signature ∉ seen ∧ ms.find? (fun n => n.signature == m.signature) = some m := by
  induction ms generalizing seen with
  | nil => cases h
  | cons n ms ih =>
    unfold firstOfSignature at h
    split at h
    next old =>
      obtain ⟨unseen, first⟩ := ih h
      have other : n.signature ≠ m.signature := by
        intro same
        exact unseen (same ▸ List.contains_iff_mem.mp old)
      exact ⟨unseen, by rw [List.find?_cons_of_neg (by simpa using other), first]⟩
    next new =>
      rcases List.mem_cons.mp h with rfl | h
      · exact ⟨by simpa using new, by simp⟩
      · obtain ⟨unseen, first⟩ := ih h
        rw [List.mem_cons, not_or] at unseen
        refine ⟨unseen.2, ?_⟩
        rw [List.find?_cons_of_neg (by simpa using Ne.symm unseen.1), first]

theorem seen_or_kept (h : m ∈ ms) :
    m.signature ∈ seen ∨ m.signature ∈ (firstOfSignature seen ms).map (·.signature) := by
  induction ms generalizing seen with
  | nil => cases h
  | cons n ms ih =>
    unfold firstOfSignature
    split
    next old =>
      rcases List.mem_cons.mp h with rfl | h
      · exact .inl (List.contains_iff_mem.mp old)
      · exact ih h
    next =>
      rw [List.map_cons, List.mem_cons]
      rcases List.mem_cons.mp h with rfl | h
      · exact .inr (.inl rfl)
      · rcases @ih (n.signature :: seen) h with seen | kept
        · exact (List.mem_cons.mp seen).elim (fun same => .inr (.inl same)) .inl
        · exact .inr (.inr kept)

/-- Where the first method is not one of those compared, all places are one further. -/
theorem pairwise_placeOf_cons {kept : List MethodRef}
    (other : ∀ m ∈ kept, n.signature ≠ m.signature)
    (h : kept.Pairwise fun m m' => placeOf m.signature ms < placeOf m'.signature ms) :
    kept.Pairwise fun m m' => placeOf m.signature (n :: ms) < placeOf m'.signature (n :: ms) := by
  refine h.imp_of_mem fun hm hm' before => ?_
  rw [placeOf_cons_of_ne (other _ hm), placeOf_cons_of_ne (other _ hm')]
  exact Nat.succ_lt_succ before

theorem pairwise_placeOf (seen : List String) (ms : List MethodRef) :
    (firstOfSignature seen ms).Pairwise fun m n =>
      placeOf m.signature ms < placeOf n.signature ms := by
  induction ms generalizing seen with
  | nil => exact .nil
  | cons n ms ih =>
    unfold firstOfSignature
    split
    next old =>
      refine pairwise_placeOf_cons (fun m hm same => ?_) (ih seen)
      exact (unseen_and_first hm).1 (same ▸ List.contains_iff_mem.mp old)
    next =>
      have other : ∀ m ∈ firstOfSignature (n.signature :: seen) ms, n.signature ≠ m.signature :=
        fun m hm same => (unseen_and_first hm).1 (same ▸ List.mem_cons_self)
      refine .cons (fun m hm => ?_) (pairwise_placeOf_cons other (ih _))
      rw [placeOf_cons_self, placeOf_cons_of_ne (other m hm)]
      exact Nat.succ_pos _

theorem firstOfSignature_firstOfEach (ms : List MethodRef) :
    FirstOfEach ms (firstOfSignature [] ms) where
  first _ hm := (unseen_and_first hm).2
  ordered := pairwise_placeOf [] ms
  distinct := by
    rw [List.nodup_iff_pairwise_ne, List.pairwise_map]
    refine (pairwise_placeOf [] ms).imp fun before same => ?_
    rw [same] at before
    exact Nat.lt_irrefl _ before
  complete _ hm := (seen_or_kept hm).resolve_left (List.not_mem_nil)

end FirstOfSignature

namespace Corpus

variable {c : Corpus}

theorem targets_firstOfEach (c : Corpus) (query : String) :
    FirstOfEach (c.methods.filter (·.answers query)) (c.targets query) :=
  firstOfSignature_firstOfEach _

theorem targets_eq_nil_iff : c.targets query = [] ↔ ∀ m ∈ c.methods, ¬m.answers query = true := by
  constructor
  · intro none m hm found
    have kept := (c.targets_firstOfEach query).complete m (List.mem_filter.mpr ⟨hm, found⟩)
    rw [none] at kept
    cases kept
  · intro none
    rw [targets, List.filter_eq_nil_iff.mpr none, firstOfSignature]

theorem resolve_eq_targets_iff :
    c.resolve query limit = .targets ms ↔ c.targets query = ms ∧ ms ≠ [] := by
  unfold resolve
  split
  next none => simp [none, eq_comm]
  next some =>
    constructor
    · rintro ⟨⟩
      exact ⟨rfl, some⟩
    · rintro ⟨rfl, _⟩
      rfl

theorem resolve_eq_suggestions_iff {names : List String} :
    c.resolve query limit = .suggestions names ↔
      c.targets query = [] ∧ c.similarMethods query limit = names := by
  unfold resolve
  split
  next none => simp [none]
  next some => exact ⟨nofun, fun none => absurd none.1 some⟩

/-- A query resolves to methods exactly when a listed method answers to it, and then to the first of
the answering methods with each signature. Without dots a method answers by its name, and to a query
with a dot by the end of its signature. So every method is found by its signature, and a query is
never suggested for itself. -/
theorem resolve_exactly (c : Corpus) (query : String) (limit : Nat) :
    ((∃ ms, c.resolve query limit = .targets ms) ↔ ∃ m ∈ c.methods, m.answers query = true) ∧
    (∀ ms, c.resolve query limit = .targets ms →
      FirstOfEach (c.methods.filter (·.answers query)) ms) ∧
    (∀ names, c.resolve query limit = .suggestions names → query ∉ names) ∧
    (∀ m : MethodRef,
      ('.' ∈ query.toList → (m.answers query = true ↔ query.toList <:+ m.signature.toList)) ∧
      ('.' ∉ query.toList → m.Undotted → (m.answers query = true ↔ m.methodName = query))) ∧
    ∀ m ∈ c.methods, ∃ ms, c.resolve m.signature limit = .targets ms ∧
      m.signature ∈ ms.map (·.signature) := by
  refine ⟨?_, ?_, ?_, ?_, ?_⟩
  · simp only [resolve_eq_targets_iff, exists_eq_left', ne_eq, targets_eq_nil_iff]
    push Not
    rfl
  · intro ms found
    obtain ⟨rfl, _⟩ := resolve_eq_targets_iff.mp found
    exact c.targets_firstOfEach query
  · intro names missed own
    obtain ⟨none, rfl⟩ := resolve_eq_suggestions_iff.mp missed
    obtain ⟨m, hm, rfl⟩ := List.mem_map.mp (mem_methodNames_of_similar own)
    exact targets_eq_nil_iff.mp none m hm m.answers_methodName
  · exact fun m => ⟨MethodRef.answers_iff_of_dotted, MethodRef.answers_iff_of_undotted⟩
  · intro m hm
    have kept := (c.targets_firstOfEach m.signature).complete m
      (List.mem_filter.mpr ⟨hm, m.answers_signature⟩)
    refine ⟨_, resolve_eq_targets_iff.mpr ⟨rfl, fun none => ?_⟩, kept⟩
    exact targets_eq_nil_iff.mp none m hm m.answers_signature

/-- Two classes with a method of one name, which is overloaded in the first. -/
def uploading : Corpus :=
  ⟨[⟨"app.Net", "Net", "app", ["upload", "upload", "close"], [], ""⟩,
    ⟨"app.Screen", "Screen", "app", ["render", "upload"], [], ""⟩], []⟩

theorem uploading_resolved :
    let both : List MethodRef := [⟨"app.Net", "upload"⟩, ⟨"app.Screen", "upload"⟩]
    uploading.resolve "upload" 10 = .targets both ∧
      FirstOfEach (uploading.methods.filter (·.answers "upload")) both ∧
      uploading.resolve "LOAD" 10 = .suggestions ["upload"] ∧ "LOAD" ∉ ["upload"] ∧
      '.' ∈ "Net.upload".toList ∧
      ((MethodRef.mk "app.Net" "upload").answers "Net.upload" = true ↔
        "Net.upload".toList <:+ "app.Net.upload".toList) ∧
      '.' ∉ "upload".toList ∧ (MethodRef.mk "app.Net" "upload").Undotted ∧
      ((MethodRef.mk "app.Net" "upload").answers "upload" = true ↔ "upload" = "upload") ∧
      ⟨"app.Screen", "render"⟩ ∈ uploading.methods ∧
      ∃ ms, uploading.resolve "app.Screen.render" 10 = .targets ms ∧
        "app.Screen.render" ∈ ms.map (·.signature) := by
  intro both
  have found : uploading.resolve "upload" 10 = .targets both :=
    resolve_eq_targets_iff.mpr ⟨by decide +kernel, by decide⟩
  have missed : uploading.resolve "LOAD" 10 = .suggestions ["upload"] :=
    resolve_eq_suggestions_iff.mpr ⟨by decide +kernel, by decide +kernel⟩
  have listed : ⟨"app.Screen", "render"⟩ ∈ uploading.methods := by decide
  have upload := resolve_exactly uploading "upload" 10
  have shouted := resolve_exactly uploading "LOAD" 10
  have dotted := resolve_exactly uploading "Net.upload" 10
  exact ⟨found, upload.2.1 both found, missed, shouted.2.2.1 _ missed, by decide,
    (dotted.2.2.2.1 ⟨"app.Net", "upload"⟩).1 (by decide), by decide, by decide,
    (upload.2.2.2.1 ⟨"app.Net", "upload"⟩).2 (by decide) (by decide), listed,
    upload.2.2.2.2 _ listed⟩

end Corpus

end AppSurface
