import AppSurface.Proofs.ClassOrder
import AppSurface.Proofs.JsonReading

namespace AppSurface

open Json

theorem ClassUnit.reads (u : ClassUnit) : Reads ClassUnit.reader u.toJson u := by
  refine record_reads
    (d := ⟨u, ["source", "fields", "methods", "package", "simple_name", "full_name"]⟩) ?_ rfl
  refine .field rfl (by simp) (Field.of_reads _ _ (string_reads u.fullName)) ?_
  refine .field rfl (by simp) (Field.of_reads _ _ (string_reads u.simpleName)) ?_
  refine .field rfl (by simp) (Field.of_reads _ _ (string_reads u.package)) ?_
  refine .field rfl (by simp) (Field.of_reads _ _ (list_reads_map string_reads u.methods)) ?_
  refine .field rfl (by simp) (Field.of_reads _ _ (list_reads_map stringPair_reads u.fields)) ?_
  exact .field rfl (by simp) (Field.of_reads _ _ (string_reads u.source)) .nil

theorem Resource.reads (r : Resource) : Reads Resource.reader r.toJson r := by
  refine record_reads (d := ⟨r, ["content", "name"]⟩) ?_ rfl
  refine .field rfl (by simp) (Field.of_reads _ _ (string_reads r.name)) ?_
  exact .field rfl (by simp) (Field.of_reads _ _ (string_reads r.content)) .nil

namespace Corpus

theorem listed_reads (c : Corpus) : Reads listed c.toJson c := by
  refine record_reads (d := ⟨c, ["resources", "classes"]⟩) ?_ rfl
  refine .field rfl (by simp) (Field.of_reads _ _ (list_reads_map ClassUnit.reads c.classes)) ?_
  exact .field rfl (by simp) (Field.of_reads _ _ (list_reads_map Resource.reads c.resources)) .nil

theorem ofJson_of_spaced {c : Corpus} {text : String} (ascending : Ascending c.classes)
    (spaced : Spaced c.toJson.tokens text.toList) : ofJson text = .ok c := by
  rw [ofJson, decode_of_spaced (listed_reads c) spaced]
  exact congrArg Except.ok (ofParts_of_ascending ascending)

/-- Every text of a corpus is read as that corpus, its written form without blanks and the one over
several lines among them. -/
theorem ofJson_toJson (classes : List ClassUnit) (resources : List Resource) :
    let c := ofParts classes resources
    (∀ text : String, Spaced c.toJson.tokens text.toList → ofJson text = .ok c) ∧
      ofJson c.toJson.compact = .ok c ∧ ofJson c.toJson.pretty = .ok c := by
  intro c
  have every : ∀ text : String, Spaced c.toJson.tokens text.toList → ofJson text = .ok c :=
    fun _ => ofJson_of_spaced classes_ascending
  exact ⟨every, every _ (spaced_compact _), every _ (spaced_pretty _)⟩

theorem ofJson_twoOfOneName :
    let c : Corpus := ⟨[⟨"p.A", "A", "p", ["m\"", "m\""], [("é\\", "😀")], "/\n\x01"⟩,
      ⟨"p.A", "A", "p", [], [], ""⟩], [⟨"x\ty", "\x7f\u2028"⟩]⟩
    let text := "\x7b\"classes\":[\x7b\"full_name\":\"p.A\",\"simple_name\":\"A\"," ++
      "\"package\":\"p\",\"methods\":[\"m\\\"\",\"m\\\"\"]," ++
      "\"fields\":[[\"é\\\\\",\"😀\"]],\"source\":\"/\\n\\u0001\"\x7d," ++
      "\x7b\"full_name\":\"p.A\",\"simple_name\":\"A\",\"package\":\"p\"," ++
      "\"methods\":[],\"fields\":[],\"source\":\"\"\x7d]," ++
      "\"resources\":[\x7b\"name\":\"x\\ty\",\"content\":\"\x7f\u2028\"\x7d]\x7d"
    ofParts c.classes c.resources = c ∧ Spaced c.toJson.tokens text.toList ∧
      ofJson text = .ok c := by
  intro c text
  have sorted : ofParts c.classes c.resources = c :=
    ofParts_of_ascending (by simp [c, Ascending])
  have written : c.toJson.compact = text := by
    -- lists of characters are compared, since texts are slow to evaluate
    simp only [text]
    repeat rw [← String.ofList_append]
    apply congrArg String.ofList
    decide +kernel
  have spaced : Spaced c.toJson.tokens text.toList := written ▸ spaced_compact c.toJson
  refine ⟨sorted, spaced, ?_⟩
  have every := (ofJson_toJson c.classes c.resources).1 text
  rw [sorted] at every
  exact every spaced

end Corpus

end AppSurface
