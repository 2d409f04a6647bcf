import ScrewLang.Proofs.Text.Decoding
import ScrewLang.Proofs.Text.Lines
import ScrewLang.Repl.Submission

/-!
# Input read line by line

A submission is read line by line, and every line is decoded on its own. A newline is a character of
one byte, and that byte is part of no other character. So the lines of a text are encoded apart as
they are together, and a sequence of bytes that a newline or the end of the input cuts short is no
character either way: a submission is the whole input, or there is none.
-/

namespace ScrewLang

namespace Text

/-- The bytes of a text have the lines of the text, each encoded. -/
theorem pieces_encode (text : List Char) :
    pieces (· == newline) (text.flatMap String.utf8EncodeChar) =
      (pieces (· == '\n') text).map (List.flatMap String.utf8EncodeChar) := by
  induction text with
  | nil => rfl
  | cons c text ih =>
    by_cases hc : c = '\n'
    · subst hc
      have hbyte : String.utf8EncodeChar '\n' = [newline] := by decide
      rw [List.flatMap_cons, hbyte, List.singleton_append, pieces, if_pos (beq_self_eq_true _), ih,
        pieces, if_pos (beq_self_eq_true _), List.map_cons, List.flatMap_singleton, hbyte]
    · have hbytes : ∀ b ∈ String.utf8EncodeChar c, (b == newline) = false := by
        intro b hb
        rw [beq_eq_false_iff_ne]
        rintro rfl
        exact hc ((mem_utf8EncodeChar_iff (d := '\n') (by decide)).mp hb)
      have hline : pieces (· == '\n') (c :: text) =
          (c :: (pieces (· == '\n') text).headD []) :: (pieces (· == '\n') text).tail :=
        @pieces_append_of_no_end Char (· == '\n') [c] (by simp [hc]) (by simp) text
      rw [List.flatMap_cons, pieces_append_of_no_end hbytes String.utf8EncodeChar_ne_nil, ih, hline]
      cases pieces (· == '\n') text with
      | nil => simp
      | cons line more => simp

/-- The bytes of a text hold no character that a newline or their end cuts short, whatever stands
before it. -/
theorem ne_encode_of_cut {c : Char} {front kept lost behind : List UInt8}
    (hc : String.utf8EncodeChar c = kept ++ lost) (hk : kept ≠ []) (hl : lost ≠ [])
    (hb : ∀ b ∈ behind.head?, b = newline) (text : List Char) :
    text.flatMap String.utf8EncodeChar ≠ front ++ kept ++ behind := by
  intro h
  obtain ⟨b, more, he, hs⟩ := spelled_encode c
  obtain ⟨first, kept, rfl⟩ := List.exists_cons_of_ne_nil hk
  rw [hc, List.cons_append] at he
  obtain ⟨rfl, rfl⟩ := List.cons.inj he
  rw [List.append_assoc, List.cons_append] at h
  obtain ⟨before, after, -, -, hafter⟩ := exists_append_of_encode hs h
  -- a character begins with the first byte of `c`, so it has as many bytes
  obtain ⟨d, after, rfl⟩ : ∃ d rest, after = d :: rest := by
    apply List.exists_cons_of_ne_nil
    rintro rfl
    cases hafter
  obtain ⟨lead, followers, hd, hspelled⟩ := spelled_encode d
  rw [List.flatMap_cons, hd, List.cons_append] at hafter
  obtain ⟨rfl, htail⟩ := List.cons.inj hafter
  have hlength := hspelled.length_eq hs
  rw [List.length_append] at hlength
  have hpos := List.length_pos_iff.mpr hl
  -- the byte behind those that are kept is then one of its followers
  rcases List.append_eq_append_iff.mp htail with ⟨passed, rfl, -⟩ | ⟨inside, rfl, hinside⟩
  · rw [List.length_append] at hlength
    omega
  · cases inside with
    | nil =>
      rw [List.append_nil] at hlength
      omega
    | cons x inside =>
      have hx := hspelled.continues x (by simp)
      rw [hb x (by rw [hinside]; rfl)] at hx
      exact absurd hx.1 (by decide)

/-- Bytes are valid exactly if they encode a text. -/
theorem isValidUTF8_iff {input : List UInt8} :
    input.toByteArray.IsValidUTF8 ↔ ∃ text, bytes text = input := by
  constructor
  · rintro ⟨characters, h⟩
    exact ⟨String.ofList characters, by
      rw [bytes, String.toList_ofList, ← List.toByteArray_inj, h]; rfl⟩
  · rintro ⟨text, rfl⟩
    exact ⟨text.toList, rfl⟩

end Text

namespace Submission

/-- Byte strings are decoded one by one if each of them encodes a text. -/
theorem decodeLines_eq_some_iff {lines : List (List UInt8)} {text : List Char} :
    decodeLines lines = some text ↔
      ∃ parts : List (List Char), lines = parts.map (List.flatMap String.utf8EncodeChar) ∧
        text = parts.flatten := by
  induction lines generalizing text with
  | nil => simp [decodeLines, eq_comm]
  | cons line lines ih =>
    simp only [decodeLines, Option.bind_eq_bind, Option.bind_eq_some_iff, Text.decode?_eq_some_iff,
      ih, Option.pure_def, Option.some.injEq]
    constructor
    · rintro ⟨first, rfl, others, ⟨parts, rfl, rfl⟩, rfl⟩
      exact ⟨first.toList :: parts, rfl, rfl⟩
    · rintro ⟨parts, hparts, rfl⟩
      obtain ⟨part, parts, rfl, rfl, rfl⟩ := List.map_eq_cons_iff.mp hparts.symm
      exact ⟨String.ofList part, by rw [Text.bytes, String.toList_ofList], parts.flatten,
        ⟨parts, rfl, rfl⟩, by rw [String.toList_ofList, List.flatten_cons]⟩

/-- Lines are decoded one by one if together they encode a text, and to that text. -/
theorem decodeLines_pieces_eq_some_iff {input : List UInt8} {text : List Char} :
    decodeLines (Text.pieces (· == newline) input) = some text ↔
      text.flatMap String.utf8EncodeChar = input := by
  rw [decodeLines_eq_some_iff]
  constructor
  · rintro ⟨parts, hlines, rfl⟩
    rw [← Text.flatten_pieces (· == newline) input, hlines, List.flatMap_def, List.map_flatten,
      List.flatten_flatten, List.map_map]
    rfl
  · rintro rfl
    exact ⟨Text.pieces (· == '\n') text, Text.pieces_encode text, (Text.flatten_pieces _ text).symm⟩

/-- A submission is found if there is any input and it encodes a text, and is then that text. -/
theorem ofInput?_eq_some_iff {input : List UInt8} {text : String} :
    ofInput? input = some text ↔ input ≠ [] ∧ Text.bytes text = input := by
  constructor
  · intro h
    rw [ofInput?] at h
    split at h
    · cases h
    · cases h
    · next characters hne hd =>
      obtain rfl := Option.some.inj h
      obtain rfl := decodeLines_pieces_eq_some_iff.mp hd
      refine ⟨?_, by rw [Text.bytes, String.toList_ofList]⟩
      intro hempty
      apply hne
      rw [List.flatMap_eq_nil_iff] at hempty
      exact List.eq_nil_iff_forall_not_mem.mpr fun c hc => String.utf8EncodeChar_ne_nil (hempty c hc)
  · rintro ⟨hne, rfl⟩
    have hd : decodeLines (Text.pieces (· == newline) (Text.bytes text)) = some text.toList :=
      decodeLines_pieces_eq_some_iff.mpr rfl
    rw [ofInput?, hd]
    cases ht : text.toList with
    | nil => exact absurd (by rw [Text.bytes, ht]; rfl) hne
    | cons c rest =>
      show some (String.ofList (c :: rest)) = some text
      rw [← ht, String.ofList_toList]

/-- A submission is the whole input or nothing. Reading line by line comes to decoding the input as a
whole, except that an empty input holds no submission. A text is found just where its bytes are the
input, so no line end is altered and nothing is left out; none is found where the input is empty or
not valid. One broken piece anywhere is enough for that, and so is a character that a newline or the
end of the input cuts short. -/
theorem whole_input_or_nothing (input : List UInt8) :
    ofInput? input = (if input = [] then none else Text.decode? input) ∧
    (∀ text, ofInput? input = some text ↔ input ≠ [] ∧ Text.bytes text = input) ∧
    (ofInput? input = none ↔ input = [] ∨ ¬input.toByteArray.IsValidUTF8) ∧
    (none ∈ Text.chunks input → ofInput? input = none) ∧
    ∀ (front kept lost behind : List UInt8) (c : Char), input = front ++ kept ++ behind →
      String.utf8EncodeChar c = kept ++ lost → kept ≠ [] → lost ≠ [] →
      (behind = [] ∨ behind.head? = some newline) → ofInput? input = none := by
  have hnone : ofInput? input = none ↔ input = [] ∨ ∀ text, Text.bytes text ≠ input := by
    by_cases hempty : input = [] <;>
      simp [Option.eq_none_iff_forall_ne_some, ofInput?_eq_some_iff, hempty]
  refine ⟨?_, fun _ => ofInput?_eq_some_iff, ?_, ?_, ?_⟩
  · split
    · next hempty => exact hnone.mpr (.inl hempty)
    · next hne =>
      apply Option.ext
      intro text
      rw [ofInput?_eq_some_iff, Text.decode?_eq_some_iff, and_iff_right hne]
  · rw [hnone, Text.isValidUTF8_iff, not_exists]
  · intro hbroken
    refine hnone.mpr (.inr fun text htext => ?_)
    rw [← htext, Text.bytes, Text.chunks_flatMap_encode] at hbroken
    simp at hbroken
  · intro front kept lost behind c hinput hc hk hl hbehind
    refine hnone.mpr (.inr fun text htext => ?_)
    refine Text.ne_encode_of_cut hc hk hl ?_ text.toList (htext.trans hinput)
    rcases hbehind with rfl | hnewline
    · simp
    · simp [hnewline]

/-- A text with a line end of two characters and none behind its last line; a byte of no character;
and two characters that are cut short, one by a newline and one by the end of the input. -/
theorem whole_input_or_nothing_cut_characters :
    let broken : List UInt8 := [0x2B, 0x0A, 0xFF]
    let cutByNewline : List UInt8 := [0x2B, 0xC3, 0x0A, 0xA9]
    let cutByEnd : List UInt8 := [0x2B, 0x0A, 0xE2, 0x82]
    ofInput? (Text.bytes "é\r\n+") = some "é\r\n+" ∧
      (none ∈ Text.chunks broken ∧ ofInput? broken = none) ∧
      (String.utf8EncodeChar 'é' = [0xC3] ++ [0xA9] ∧ ofInput? cutByNewline = none) ∧
      (String.utf8EncodeChar '€' = [0xE2, 0x82] ++ [0xAC] ∧ ofInput? cutByEnd = none) := by
  intro broken cutByNewline cutByEnd
  have hbroken : none ∈ Text.chunks broken := by decide +kernel
  have htwo : String.utf8EncodeChar 'é' = [0xC3] ++ [0xA9] := by decide
  have hthree : String.utf8EncodeChar '€' = [0xE2, 0x82] ++ [0xAC] := by decide
  obtain ⟨-, hwhole, -, -, -⟩ := whole_input_or_nothing (Text.bytes "é\r\n+")
  obtain ⟨-, -, -, hnone, -⟩ := whole_input_or_nothing broken
  obtain ⟨-, -, -, -, hnewline⟩ := whole_input_or_nothing cutByNewline
  obtain ⟨-, -, -, -, hend⟩ := whole_input_or_nothing cutByEnd
  refine ⟨(hwhole _).mpr ⟨by decide, rfl⟩, ⟨hbroken, hnone hbroken⟩, ⟨htwo, ?_⟩, hthree, ?_⟩
  · exact hnewline [0x2B] _ _ [0x0A, 0xA9] 'é' rfl htwo (by decide) (by decide) (.inr rfl)
  · exact hend [0x2B, 0x0A] _ _ [] '€' rfl hthree (by decide) (by decide) (.inl rfl)

end Submission

end ScrewLang
