/-!
# Parts of a text by byte offsets

A text can be cut between two characters and at its ends, but not within a character.
`Text.byteOffset` turns the index of a character into the byte offset at which it begins, and
`Text.slice?` takes out the part between two byte offsets: there is none if they are out of order or
if the text cannot be cut at one of them.
Spec guidance: `SPEC_FULL.md` §12, component `cli_util`.
-/

namespace ScrewLang.Text

/-- How many bytes encode a text. -/
def byteLength (text : List Char) : Nat :=
  (text.flatMap String.utf8EncodeChar).length

/-- The characters of a text with the offsets at which they begin, the first of them at `offset`. -/
def charOffsets : (offset : Nat) → List Char → List (Nat × Char)
  | _, [] => []
  | offset, c :: rest => (offset, c) :: charOffsets (offset + c.utf8Size) rest

/-- The byte offset of the character with a given index, or the byte length of the text if it has no
such character. Follows `char_to_byte_index`. -/
def byteOffset (text : List Char) (index : Nat) : Nat :=
  (charOffsets 0 text)[index]?.elim (byteLength text) Prod.fst

/-- The parts of a text before and behind a byte offset. There are none if the offset lies within a
character or behind the end. -/
def cut? : List Char → (offset : Nat) → Option (List Char × List Char)
  | text, 0 => some ([], text)
  | [], _ + 1 => none
  | c :: rest, offset + 1 =>
    if c.utf8Size ≤ offset + 1 then
      (cut? rest (offset + 1 - c.utf8Size)).map fun parts => (c :: parts.1, parts.2)
    else none

/-- The part of a text between two byte offsets. -/
def slice? (text : List Char) (start finish : Nat) : Option (List Char) :=
  if start ≤ finish then
    (cut? text start).bind fun parts => (cut? parts.2 (finish - start)).map Prod.fst
  else none

theorem byteLength_cons (c : Char) (text : List Char) :
    byteLength (c :: text) = c.utf8Size + byteLength text := by
  rw [byteLength, List.flatMap_cons, List.length_append, String.length_utf8EncodeChar, byteLength]

theorem byteLength_append (front back : List Char) :
    byteLength (front ++ back) = byteLength front + byteLength back := by
  rw [byteLength, List.flatMap_append, List.length_append, byteLength, byteLength]

/-- A character begins behind the bytes of all characters before it. -/
theorem getElem?_charOffsets (offset : Nat) (text : List Char) (index : Nat) :
    (charOffsets offset text)[index]? =
      text[index]?.map fun c => (offset + byteLength (text.take index), c) := by
  induction text generalizing offset index with
  | nil => rfl
  | cons c rest ih =>
    cases index with
    | zero => rfl
    | succ index =>
      rw [charOffsets, List.getElem?_cons_succ, ih, List.getElem?_cons_succ, List.take_succ_cons,
        byteLength_cons, Nat.add_assoc]

/-- The offset of an index is the length in bytes of as many characters. -/
theorem byteOffset_eq (text : List Char) (index : Nat) :
    byteOffset text index = byteLength (text.take index) := by
  rw [byteOffset, getElem?_charOffsets]
  cases h : text[index]? with
  | none => rw [List.take_of_length_le (List.getElem?_eq_none_iff.mp h)]; rfl
  | some c => rw [Option.map_some, Nat.zero_add]; rfl

theorem cut?_cons {c : Char} {offset : Nat} (h : c.utf8Size ≤ offset) (rest : List Char) :
    cut? (c :: rest) offset =
      (cut? rest (offset - c.utf8Size)).map fun parts => (c :: parts.1, parts.2) := by
  cases offset with
  | zero => exact absurd c.utf8Size_pos (Nat.not_lt_of_le h)
  | succ offset => rw [cut?, if_pos h]

/-- A text is cut behind the bytes of any of its front parts. -/
theorem cut?_append (front back : List Char) :
    cut? (front ++ back) (byteLength front) = some (front, back) := by
  induction front with
  | nil => exact cut?.eq_1 back
  | cons c front ih =>
    rw [byteLength_cons, List.cons_append, cut?_cons (Nat.le_add_right _ _), Nat.add_sub_cancel_left,
      ih, Option.map_some]

/-- What stands between two parts of a text is found between the offsets at which it begins and
ends. -/
theorem slice?_append (front part back : List Char) :
    slice? (front ++ (part ++ back)) (byteLength front) (byteLength (front ++ part)) =
      some part := by
  rw [slice?, byteLength_append, if_pos (Nat.le_add_right _ _), cut?_append, Option.bind_some,
    Nat.add_sub_cancel_left, cut?_append, Option.map_some]

/-- Between the offsets of two indices stand the characters from the one to the other. An index past
the end does for that of the end. -/
theorem slice?_byteOffset (text : List Char) {first last : Nat} (h : min first text.length ≤ last) :
    slice? text (byteOffset text first) (byteOffset text last) =
      some ((text.take last).drop first) := by
  have hfront : text.take first = (text.take last).take first := by
    rw [List.take_take, List.take_eq_take_iff]
    omega
  have hpart : text.take last = text.take first ++ (text.take last).drop first := by
    rw [hfront, List.take_append_drop]
  have htext : text = text.take first ++ ((text.take last).drop first ++ text.drop last) := by
    rw [← List.append_assoc, ← hpart, List.take_append_drop]
  have hslice := slice?_append (text.take first) ((text.take last).drop first) (text.drop last)
  rwa [← htext, ← hpart, ← byteOffset_eq, ← byteOffset_eq] at hslice

end ScrewLang.Text
