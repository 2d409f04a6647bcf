import ScrewLang.Proofs.Text.Decoding
import ScrewLang.Proofs.Text.Lines
import ScrewLang.Source.Location
import ScrewLang.Text.Slice

/-!
# Positions of characters

A location counts bytes and tells line and column by them. In the bytes of a text both come to what a
reader of its characters counts: a character of several bytes advances the column by one, with its
first byte. So the place of a plain byte is the character that it encodes, in the line with as many
newlines before it as its number says, and with as many characters before it there as its column
says.
-/

namespace ScrewLang

open Text (IsLine Plain)

/-! ### Bytes and characters -/

namespace Position

/-- The position after one more character. -/
def step (p : Position) (c : Char) : Position :=
  if c = '\n' then ⟨p.line + 1, 1⟩ else ⟨p.line, p.column + 1⟩

/-- Bytes that continue a character leave the position as it is. -/
private theorem foldl_advance_followers {more : List UInt8}
    (h : ∀ b ∈ more, 0x80 ≤ b.toNat ∧ b.toNat ≤ 0xBF) (p : Position) :
    more.foldl advance p = p := by
  induction more with
  | nil => rfl
  | cons b more ih =>
    rw [List.forall_mem_cons] at h
    have hc : Text.isContinuation b = true := by
      simpa [Text.isContinuation] using Text.continues_iff.mpr h.1
    have hn : b ≠ newline := by
      rintro rfl
      exact absurd h.1.1 (by decide)
    rw [List.foldl_cons, advance, if_neg hn, if_pos hc]
    exact ih h.2

/-- A character advances the position by its first byte only, so that any number of its bytes does
what all of them do. -/
theorem foldl_advance_take_encode (p : Position) (c : Char) {count : Nat} (hp : 0 < count) :
    ((String.utf8EncodeChar c).take count).foldl advance p = p.step c := by
  obtain ⟨b, more, he, hs⟩ := Text.spelled_encode c
  have hvalue : b.toNat = 0x0A ↔ c.toNat = 0x0A := by
    cases hs <;> omega
  have hnewline : b = newline ↔ c = '\n' := by
    rw [← UInt8.toNat_inj, ← Char.toNat_inj]
    exact hvalue
  have hc : Text.isContinuation b = false := by
    rw [Text.isContinuation, ← Bool.not_eq_true, Bool.and_eq_true, decide_eq_true_iff,
      decide_eq_true_iff, Text.continues_iff]
    exact hs.begins
  obtain ⟨rest, rfl⟩ := Nat.exists_eq_succ_of_ne_zero (Nat.ne_of_gt hp)
  rw [he, List.take_succ_cons, List.foldl_cons,
    foldl_advance_followers fun x hx => hs.continues x (List.mem_of_mem_take hx), advance, step]
  simp only [hnewline, hc, Bool.false_eq_true, ↓reduceIte]

theorem foldl_advance_encode (p : Position) (c : Char) :
    (String.utf8EncodeChar c).foldl advance p = p.step c := by
  have hpos : 0 < (String.utf8EncodeChar c).length :=
    List.length_pos_iff.mpr String.utf8EncodeChar_ne_nil
  rw [← p.foldl_advance_take_encode c hpos, List.take_length]

/-- The bytes of a text lead to the position that its characters lead to. -/
theorem foldl_advance_bytes (p : Position) (text : List Char) :
    (text.flatMap String.utf8EncodeChar).foldl advance p = text.foldl step p := by
  rw [List.foldl_flatMap]
  simp only [foldl_advance_encode]

/-- Every newline begins a line. -/
theorem line_foldl_step (p : Position) (text : List Char) :
    (text.foldl step p).line = p.line + text.count '\n' := by
  induction text generalizing p with
  | nil => rfl
  | cons c text ih =>
    rw [List.foldl_cons, ih, step]
    split
    · next h => rw [h, List.count_cons_self, Nat.add_assoc, Nat.add_comm 1]
    · next h => rw [List.count_cons_of_ne h]

/-- On one line every character advances the column. -/
theorem foldl_step_of_not_mem (p : Position) {front : List Char} (h : '\n' ∉ front) :
    front.foldl step p = ⟨p.line, p.column + front.length⟩ := by
  induction front generalizing p with
  | nil => rfl
  | cons c front ih =>
    rw [List.mem_cons, not_or] at h
    rw [List.foldl_cons, ih _ h.2, step, if_neg (Ne.symm h.1), List.length_cons, Nat.add_assoc,
      Nat.add_comm 1]

/-- The position behind the begin of a line. -/
theorem foldl_step_line {before front : List Char} (hb : ∀ c ∈ before.getLast?, c = '\n')
    (hf : '\n' ∉ front) :
    (before ++ front).foldl step start = ⟨before.count '\n' + 1, front.length + 1⟩ := by
  have hline : (before.foldl step start).line = before.count '\n' + 1 := by
    rw [line_foldl_step, Nat.add_comm]
    rfl
  have hcolumn : (before.foldl step start).column = 1 := by
    rcases List.eq_nil_or_concat before with rfl | ⟨init, last, rfl⟩
    · rfl
    · obtain rfl : last = '\n' := hb last (by simp)
      simp [step]
  rw [List.foldl_append, foldl_step_of_not_mem _ hf, hline, hcolumn, Nat.add_comm 1]

end Position

/-- Where a plain byte stands in the bytes of a text, the text has its character. -/
theorem Text.exists_of_getElem?_encode {text : List Char} {offset : Nat} {c : Char} (hc : Plain c)
    (h : (text.flatMap String.utf8EncodeChar)[offset]? = some (UInt8.ofNat c.toNat)) :
    ∃ pre post, text = pre ++ c :: post ∧
      (pre.flatMap String.utf8EncodeChar).length = offset := by
  induction text generalizing offset with
  | nil => simp at h
  | cons d text ih =>
    rw [List.flatMap_cons] at h
    by_cases hd : offset < (String.utf8EncodeChar d).length
    · rw [List.getElem?_append_left hd] at h
      obtain rfl : d = c := (mem_utf8EncodeChar_iff hc).mp (List.mem_of_getElem? h)
      rw [utf8EncodeChar_of_plain hc, List.length_singleton] at hd
      exact ⟨[], text, rfl, (Nat.lt_one_iff.mp hd).symm⟩
    · rw [List.getElem?_append_right (Nat.le_of_not_lt hd)] at h
      obtain ⟨pre, post, rfl, hlength⟩ := ih h
      refine ⟨d :: pre, post, rfl, ?_⟩
      rw [List.flatMap_cons, List.length_append, hlength]
      omega

/-- A plain byte of a text other than a newline is a character on a line, and the line and the column
of its location are those of the character. -/
theorem Location.exists_line_of_plain {source : String} {offset : Nat} {c : Char} (hc : Plain c)
    (hn : c ≠ '\n') (h : (Text.bytes source)[offset]? = some (UInt8.ofNat c.toNat)) :
    ∃ before front back after, source.toList = before ++ (front ++ c :: back) ++ after ∧
      IsLine before (front ++ c :: back) after ∧
      Text.byteOffset source.toList (before.length + front.length) = offset ∧
      (ofOffset (Text.bytes source) offset).toPosition =
        ⟨before.count '\n' + 1, front.length + 1⟩ := by
  obtain ⟨pre, post, htext, hlength⟩ := Text.exists_of_getElem?_encode hc h
  obtain ⟨before, front, back, after, rfl, rfl, hline⟩ := Text.exists_line hn pre post
  have hfront : '\n' ∉ front := fun hm => hline.single (List.mem_append_left _ hm)
  refine ⟨before, front, back, after, by simp [htext], hline, ?_, ?_⟩
  · rw [Text.byteOffset_eq, Text.byteLength, htext, ← List.length_append, List.take_left, hlength]
  · have htake : (Text.bytes source).take offset =
        (before ++ front).flatMap String.utf8EncodeChar := by
      rw [Text.bytes, htext, List.flatMap_append, List.take_left' hlength]
    show ((Text.bytes source).take offset).foldl Position.advance Position.start = _
    rw [htake, Position.foldl_advance_bytes, Position.foldl_step_line hline.begins hfront]

end ScrewLang
