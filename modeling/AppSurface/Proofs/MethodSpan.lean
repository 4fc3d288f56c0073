import AppSurface.MethodSpan
import AppSurface.Proofs.ByteOrder
import AppSurface.Proofs.MethodHead

namespace AppSurface

/-- The bytes of some characters in UTF-8. -/
def encode (w : List Char) : List UInt8 := w.flatMap String.utf8EncodeChar

theorem encode_append (v w : List Char) : encode (v ++ w) = encode v ++ encode w :=
  List.flatMap_append

theorem encode_cons (x : Char) (w : List Char) :
    encode (x :: w) = String.utf8EncodeChar x ++ encode w :=
  List.flatMap_cons

theorem bytes_eq_encode (text : String) : bytes text = encode text.toList := bytes_eq_flatMap text

theorem utf8ByteSize_eq (text : String) : text.utf8ByteSize = (encode text.toList).length := by
  rw [← bytes_eq_encode]
  rfl

theorem size_ofList (w : List Char) : (String.ofList w).toByteArray.size = (encode w).length := by
  rw [← String.toList_ofList (l := w), ← utf8ByteSize_eq, String.toList_ofList]
  rfl

/-- The byte of an ASCII character stands in the bytes of no other character. -/
theorem eq_of_mem_utf8EncodeChar {a c : Char} (ha : a.val.toNat < 128)
    (h : a.toUInt8 ∈ String.utf8EncodeChar c) : c = a := by
  have byte : a.toUInt8.toNat = a.val.toNat := by
    rw [Char.toUInt8, UInt32.toNat_toUInt8]
    omega
  suffices c.val.toNat = a.val.toNat from Char.ext (UInt32.toNat_inj.mp this)
  unfold String.utf8EncodeChar at h
  generalize c.val.toNat = n at *
  dsimp only at h
  split at h
  · have := congrArg UInt8.toNat (List.mem_singleton.mp h)
    rw [UInt8.toNat_ofNat'] at this
    omega
  · -- the bytes of a longer encoding are 128 at least
    repeat' split at h
    all_goals
      simp only [List.mem_cons, List.not_mem_nil, or_false, ← UInt8.toNat_inj,
        UInt8.toNat_ofNat'] at h
      omega

theorem Cursor.Reads.offset_eq {c d : Cursor} {w : List Char} (h : c.Reads w d) :
    d.offset = c.offset + (encode w).length := by
  induction h with
  | nil c => rfl
  | cons hx _ ih =>
    rw [ih, (next?_eq_some hx).2.1, encode_cons, List.length_append, String.length_utf8EncodeChar]
    omega

namespace Locator

open Cursor (Reads)

variable {source name : String} {before text after s rest : List Char} {bytes w : List UInt8}
  {size place depth n m : Nat} {c d : Cursor}

/-- What stands before some characters of a source ends between characters. -/
theorem isValid_of_split (split : source.toList = before ++ after) :
    (⟨(encode before).length⟩ : String.Pos.Raw).IsValid source := by
  refine String.Pos.Raw.isValid_iff_exists_append.mpr
    ⟨String.ofList before, String.ofList after, ?_, ?_⟩
  · rw [← String.ofList_append, ← split, String.ofList_toList]
  · rw [← size_ofList]
    rfl

/-- The places around a part of a source stand in order, and between characters of the source. -/
theorem places_of_split (split : source.toList = before ++ (text ++ after)) :
    (encode before).length ≤ (encode (before ++ text)).length ∧
      (encode (before ++ text)).length ≤ source.utf8ByteSize ∧
      (⟨(encode before).length⟩ : String.Pos.Raw).IsValid source ∧
      (⟨(encode (before ++ text)).length⟩ : String.Pos.Raw).IsValid source := by
  have stop := isValid_of_split (split.trans (List.append_assoc _ _ _).symm)
  refine ⟨?_, stop.le_utf8ByteSize, isValid_of_split split, stop⟩
  rw [encode_append, List.length_append]
  exact Nat.le_add_right _ _

theorem cutOut_eq (split : source.toList = before ++ (text ++ after)) :
    cutOut source (encode before).length (encode (before ++ text)).length =
      .ok (String.ofList text) := by
  obtain ⟨ordered, within, start, stop⟩ := places_of_split split
  rw [cutOut, if_pos ⟨ordered, within⟩, dif_pos ⟨start, stop⟩]
  have whole : source = String.ofList before ++ (String.ofList text ++ String.ofList after) := by
    rw [← String.ofList_append, ← String.ofList_append, ← split, String.ofList_toList]
  have startSize : (encode before).length = (String.ofList before).toByteArray.size + 0 := by
    rw [size_ofList, Nat.add_zero]
  have stopSize : (encode (before ++ text)).length =
      (String.ofList before).toByteArray.size + (String.ofList text).toByteArray.size := by
    rw [encode_append, List.length_append, size_ofList, size_ofList]
  refine congrArg Except.ok (String.toByteArray_inj.mp ?_)
  rw [String.toByteArray_extract]
  simp only [startSize, stopSize]
  rw [whole, String.toByteArray_append, String.toByteArray_append,
    ByteArray.extract_append_size_add, ByteArray.extract_append_size_left,
    ByteArray.extract_zero_size]

theorem brace_bytes : String.utf8EncodeChar '{' = [openBrace] ∧
    String.utf8EncodeChar '}' = [closeBrace] := by decide

/-- Bytes that are no braces are counted and nothing else. -/
theorem blockEnd_append (ho : openBrace ∉ w) (hc : closeBrace ∉ w) :
    blockEnd size place depth (w ++ bytes) = blockEnd size (place + w.length) depth bytes := by
  induction w generalizing place with
  | nil => rfl
  | cons b w ih =>
    rw [List.mem_cons, not_or] at ho hc
    rw [List.cons_append, blockEnd, if_neg (Ne.symm ho.1), if_neg (Ne.symm hc.1), ih ho.2 hc.2,
      List.length_cons, Nat.add_assoc, Nat.add_comm 1]

/-- One character is read within a block, and leaves the block open. -/
theorem blockEnd_char {x : Char} (hx : [x].count '}' + m = [x].count '{' + n) (hn : n < place)
    (hp : place < size) :
    blockEnd size place (n + 1) (String.utf8EncodeChar x ++ bytes) =
      blockEnd size (place + x.utf8Size) (m + 1) bytes := by
  by_cases ho : x = '{'
  · subst ho
    -- no more blocks are open than bytes were read
    have up : n + 1 < size := by omega
    have hm : m = n + 1 := by simpa [Nat.add_comm] using hx
    rw [brace_bytes.1, hm, List.singleton_append, blockEnd, if_pos rfl, countUp, if_pos up]
    rfl
  · by_cases hc : x = '}'
    · subst hc
      have hm : n = m + 1 := by simpa [Nat.add_comm] using hx.symm
      rw [brace_bytes.2, hm, List.singleton_append, blockEnd, if_neg (by decide), if_pos rfl]
      rfl
    · have hm : m = n := by simpa [ho, hc] using hx
      have open_ : openBrace ∉ String.utf8EncodeChar x :=
        fun h => ho (eq_of_mem_utf8EncodeChar (by decide) h)
      have close : closeBrace ∉ String.utf8EncodeChar x :=
        fun h => hc (eq_of_mem_utf8EncodeChar (by decide) h)
      rw [hm, blockEnd_append open_ close, String.length_utf8EncodeChar]

/-- Within a block, the search by bytes ends where the search by characters does. -/
theorem blockEnd_encode (hn : n < place) (hs : place + (encode s).length = size) :
    blockEnd size place (n + 1) (encode s) =
      .ok ((afterBlock n s).map fun rest => size - (encode rest).length) := by
  induction s generalizing n place with
  | nil => rfl
  | cons x s ih =>
    have pos : 0 < x.utf8Size := x.utf8Size_pos
    rw [encode_cons, List.length_append, String.length_utf8EncodeChar] at hs
    rcases afterBlock_cons n x s with ⟨rfl, rfl⟩ | ⟨m, step, hm⟩
    · have up : place < size := by omega
      have stop : place + 1 = size - (encode s).length := by
        have : ('}').utf8Size = 1 := rfl
        omega
      rw [encode_cons, brace_bytes.2, List.singleton_append, blockEnd, if_neg (by decide),
        if_pos rfl]
      simp [countDown, countUp, up, stop, afterBlock, bind, Except.bind, pure, Except.pure]
    · have opened : [x].count '{' ≤ 1 := List.count_le_length
      rw [encode_cons, blockEnd_char hm hn (by omega), step, ih (by omega) (by omega)]

/-- The first head of a source stands between two places of its bytes, and ends with a brace. -/
theorem exists_split_of_find? {name : List Char}
    (hf : (header name).find? source.toList = some (c, d)) :
    ∃ before head, source.toList = before ++ (head ++ '{' :: d.after) ∧
      c.after = head ++ '{' :: d.after ∧ c.offset = (encode before).length ∧
      d.offset = (encode (before ++ head)).length + 1 := by
  obtain ⟨hm, before, hbefore, _⟩ := Pattern.find?_eq_some hf
  obtain ⟨head, e, hhead, ho⟩ := exists_reads_of_header hm
  have ahead : c.after = head ++ '{' :: d.after := by
    rw [hhead.after_eq, ho.after_eq, List.singleton_append]
  have start : (Cursor.start source.toList).offset = 0 := rfl
  refine ⟨before, head, ?_, ahead, ?_, ?_⟩
  · rw [← ahead, ← hbefore.after_eq]
    rfl
  · rw [hbefore.offset_eq, start, Nat.zero_add]
  · rw [ho.offset_eq, (hbefore.append hhead).offset_eq, start, Nat.zero_add]
    rfl

/-- The byte in front of the place where a head ends is that of an opening brace. -/
theorem exists_front_of_find? {name : List Char}
    (hf : (header name).find? source.toList = some (c, d)) :
    ∃ front, source.toUTF8.data.toList = front ++ openBrace :: encode d.after ∧
      d.offset = front.length + 1 := by
  obtain ⟨before, head, split, _, _, hd⟩ := exists_split_of_find? hf
  refine ⟨encode (before ++ head), ?_, hd⟩
  have bytes : source.toUTF8.data.toList = encode source.toList := bytes_eq_encode source
  rw [bytes, split, ← List.append_assoc, encode_append, encode_cons, brace_bytes.1,
    List.singleton_append]

/-- Counting begins at that byte, and ends where the search by characters does. -/
theorem blockEnd_of_find? {name : List Char}
    (hf : (header name).find? source.toList = some (c, d)) :
    ∃ brace, d.offset = brace + 1 ∧
      bytesFrom source brace = .ok (openBrace :: encode d.after) ∧
      blockEnd source.utf8ByteSize brace 0 (openBrace :: encode d.after) =
        .ok ((afterBlock 0 d.after).map fun rest =>
          source.utf8ByteSize - (encode rest).length) := by
  obtain ⟨front, text, hd⟩ := exists_front_of_find? hf
  have size : source.utf8ByteSize = front.length + 1 + (encode d.after).length := by
    have := congrArg List.length text
    rw [List.length_append, List.length_cons] at this
    change source.toUTF8.data.toList.length = _
    omega
  refine ⟨front.length, hd, ?_, ?_⟩
  · have within : front.length ≤ source.utf8ByteSize := by omega
    rw [bytesFrom, if_pos within, text, List.drop_left]
  · have up : 0 < source.utf8ByteSize := by omega
    rw [blockEnd, if_pos rfl, countUp, if_pos up]
    exact blockEnd_encode (Nat.succ_pos _) size.symm

/-- A head that is found is followed by a search for the end of its block. -/
theorem span_of_find? (hn : name.isEmpty = false)
    (hf : (header name.toList).find? source.toList = some (c, d)) :
    span source name = .ok ((afterBlock 0 d.after).map fun rest =>
      (c.offset, source.utf8ByteSize - (encode rest).length)) := by
  obtain ⟨brace, hd, hbytes, hend⟩ := blockEnd_of_find? hf
  rw [span, hn, hf]
  simp only [hd, countDown, hbytes, hend, bind, Except.bind, pure, Except.pure, Option.map_map]
  rfl

/-- A search by bytes finds nothing where the search by characters finds nothing, and otherwise the
places around the text that is found there. -/
theorem span_cases (source name : String) :
    (span source name = .ok none ∧ body? source.toList name.toList = none) ∨
      ∃ before body after, source.toList = before ++ (body ++ after) ∧
        span source name = .ok (some ((encode before).length, (encode (before ++ body)).length)) ∧
        body? source.toList name.toList = some body := by
  cases hn : name.isEmpty with
  | true =>
    have empty : name.toList = [] := by simpa [String.isEmpty_iff] using hn
    exact .inl ⟨by rw [span, if_pos hn], by rw [empty, body?]; rfl⟩
  | false =>
    have named : name.toList ≠ [] := by
      intro empty
      simp [String.toList_eq_nil_iff.mp empty] at hn
    cases hf : (header name.toList).find? source.toList with
    | none => exact .inl ⟨by rw [span, hn, hf]; rfl, body?_of_find?_eq_none hf⟩
    | some found =>
      obtain ⟨c, d⟩ := found
      have places := span_of_find? hn hf
      cases ha : afterBlock 0 d.after with
      | none => exact .inl ⟨by rw [places, ha]; rfl, body?_of_afterBlock_eq_none hf ha⟩
      | some rest =>
        obtain ⟨before, head, split, ahead, hc, _⟩ := exists_split_of_find? hf
        obtain ⟨t, ht, _⟩ := afterBlock_eq_some ha
        have located : Located source.toList name.toList head ('{' :: t) :=
          ⟨named, c, d, rest, hf, ha, by rw [ht]; rfl, by rw [ahead, ht]; rfl⟩
        have whole : source.toList = before ++ ((head ++ '{' :: t) ++ rest) := by simp [split, ht]
        have stop : source.utf8ByteSize - (encode rest).length =
            (encode (before ++ (head ++ '{' :: t))).length := by
          rw [utf8ByteSize_eq, whole, ← List.append_assoc, encode_append, List.length_append,
            Nat.add_sub_cancel]
        refine .inr ⟨before, head ++ '{' :: t, rest, whole, ?_, ?_⟩
        · rw [places, ha, hc, Option.map_some, stop]
        · exact body?_eq_some_iff.mpr ⟨head, _, located, rfl⟩

/-- No step of a search by bytes is at fault, whatever the source and the name: no depth is counted
down from zero, and no part is cut out that is not there. Counting begins at the byte of an opening
brace, the places found stand in order between characters of the source, and the text between them
is the one that the search by characters finds. -/
theorem cutBody_faultless (source name : String) :
    (∀ c d, (header name.toList).find? source.toList = some (c, d) →
      0 < d.offset ∧ source.toUTF8.data.toList[d.offset - 1]? = some openBrace) ∧
    (∃ found, span source name = .ok found ∧ ∀ places ∈ found,
      places.1 ≤ places.2 ∧ places.2 ≤ source.utf8ByteSize ∧
        (⟨places.1⟩ : String.Pos.Raw).IsValid source ∧
        (⟨places.2⟩ : String.Pos.Raw).IsValid source) ∧
    cutBody source name = .ok ((body? source.toList name.toList).map String.ofList) := by
  refine ⟨?_, ?_⟩
  · intro c d hf
    obtain ⟨front, text, hd⟩ := exists_front_of_find? hf
    refine ⟨by omega, ?_⟩
    rw [text, hd, Nat.add_sub_cancel, List.getElem?_append_right (Nat.le_refl _), Nat.sub_self,
      List.getElem?_cons_zero]
  · rcases span_cases source name with ⟨nothing, hb⟩ | ⟨before, body, after, split, places, hb⟩
    · refine ⟨⟨_, nothing, by simp⟩, ?_⟩
      rw [cutBody, nothing, hb]
      rfl
    · refine ⟨⟨_, places, ?_⟩, ?_⟩
      · rintro _ ⟨⟩
        exact places_of_split split
      · rw [cutBody, places, hb]
        change some <$> cutOut _ _ _ = _
        rw [cutOut_eq split]
        rfl

/-- A method whose name and text have an accented letter, and whose name has a brace. -/
def accented : String := "ü final é\x7b() \x7b ü \x7d \x7d"

theorem accented_cut :
    span accented "é\x7b" = .ok (some (3, 21)) ∧
      cutBody accented "é\x7b" = .ok (some "final é\x7b() \x7b ü \x7d") := by
  have found : body? accented.toList "é\x7b".toList =
      some "final é\x7b() \x7b ü \x7d".toList := by decide +kernel
  refine ⟨by decide +kernel, ?_⟩
  rw [(cutBody_faultless accented "é\x7b").2.2, found]
  rfl

end Locator

end AppSurface
