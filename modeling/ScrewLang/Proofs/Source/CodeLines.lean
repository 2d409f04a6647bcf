import Mathlib.Data.List.TakeWhile
import ScrewLang.Proofs.Program.TextForm
import ScrewLang.Proofs.Text.Encoding

/-!
# The code of a text, line by line

The scan walks over bytes with a mode. The same program is found by looking at the characters of the
text line by line: what precedes the first terminator is cut into lines, every line is cut at its
first comment mark, and of what is left the characters of the alphabet are kept.
-/

namespace ScrewLang

/-- The characters that write symbols. -/
def Symbol.alphabet : List Char :=
  ['>', '<', '+', '-', '.', '?', '\x7b', '\x7d', '*', '^', '0', '1', '2', '3', '4', '5', '6', '7',
    '8', '9']

/-- The characters that write symbols are plain. -/
theorem Symbol.plain_of_mem_alphabet {c : Char} (h : c ∈ alphabet) : Text.Plain c := by
  have hplain : alphabet.all (fun other => decide (Text.Plain other)) = true := by decide
  exact of_decide_eq_true (List.all_eq_true.mp hplain c h)

namespace Text

/-- The lines of a text up to its first terminator. -/
def codeLines (text : List Char) : List (List Char) :=
  (text.takeWhile (· != '~')).splitOn '\n'

/-- The symbols that a line writes outside its comment. -/
def lineCode (line : List Char) : List Char :=
  (line.takeWhile (· != ';')).filter (· ∈ Symbol.alphabet)

/-- The symbols that a text writes, found line by line. -/
def code (text : List Char) : List Char :=
  (codeLines text).flatMap lineCode

end Text

/-- The text form of the program that a text writes. -/
def Program.textOf (source : String) : String :=
  (ofSource (Text.bytes source)).text

namespace Scan

/-- The symbols that the scan finds in some bytes, from a mode on. -/
private def found : Mode → List UInt8 → List Symbol
  | _, [] => []
  | mode, b :: rest =>
    (if mode.next b = .code then (Symbol.ofByte? b).toList else []) ++ found (mode.next b) rest

private theorem filterMap_items (location : Location) (mode : Mode) (source : List UInt8) :
    (onward location mode source).items.filterMap (fun item => Symbol.ofByte? item.byte) =
      found mode source := by
  induction source generalizing location mode with
  | nil => rfl
  | cons b rest ih =>
    rw [onward, found]
    by_cases hm : mode.next b = .code
    · by_cases hn : b = newline
      · subst hn
        simp only [hm, ne_eq, not_true_eq_false, and_false, ↓reduceIte, ih]
        rfl
      · simp only [hm, hn, ne_eq, not_false_eq_true, and_self, ↓reduceIte, List.filterMap_cons, ih]
        cases Symbol.ofByte? b <;> rfl
    · simp only [hm, false_and, ↓reduceIte, ih, List.nil_append]

/-- The region of a text after one more character. -/
def Mode.step (mode : Mode) (c : Char) : Mode :=
  if mode = .ended ∨ c = '~' then .ended
  else if c = ';' then .comment
  else if c = '\n' then .code
  else mode

/-- What a character that leaves the scan in some mode adds to the code. -/
def Mode.keeps (mode : Mode) (c : Char) : List Char :=
  if mode = .code then [c].filter (· ∈ Symbol.alphabet) else []

private theorem plain_table : ∀ i : Fin 0x80,
    (UInt8.ofNat i.val = terminator ↔ Char.ofNat i.val = '~') ∧
      (UInt8.ofNat i.val = commentMark ↔ Char.ofNat i.val = ';') ∧
      (UInt8.ofNat i.val = newline ↔ Char.ofNat i.val = '\n') ∧
      (Symbol.ofByte? (UInt8.ofNat i.val)).toList.map Symbol.glyph =
        [Char.ofNat i.val].filter (· ∈ Symbol.alphabet) := by
  decide +kernel

private theorem byte_plain {c : Char} (h : Text.Plain c) :
    (UInt8.ofNat c.toNat = terminator ↔ c = '~') ∧
      (UInt8.ofNat c.toNat = commentMark ↔ c = ';') ∧ (UInt8.ofNat c.toNat = newline ↔ c = '\n') ∧
      (Symbol.ofByte? (UInt8.ofNat c.toNat)).toList.map Symbol.glyph =
        [c].filter (· ∈ Symbol.alphabet) := by
  have table := plain_table ⟨c.toNat, h⟩
  simpa only [Char.ofNat_toNat] using table

private theorem high_table : ∀ i : Fin 0x80,
    UInt8.ofNat (0x80 + i.val) ≠ terminator ∧ UInt8.ofNat (0x80 + i.val) ≠ commentMark ∧
      UInt8.ofNat (0x80 + i.val) ≠ newline ∧
      Symbol.ofByte? (UInt8.ofNat (0x80 + i.val)) = none := by
  decide +kernel

private theorem next_plain {c : Char} (h : Text.Plain c) (mode : Mode) :
    mode.next (UInt8.ofNat c.toNat) = mode.step c := by
  obtain ⟨ht, hc, hn, -⟩ := byte_plain h
  simp only [Mode.next, Mode.step, ht, hc, hn]

private theorem found_plain {c : Char} (h : Text.Plain c) (mode : Mode) (rest : List UInt8) :
    (found mode (UInt8.ofNat c.toNat :: rest)).map Symbol.glyph =
      (mode.step c).keeps c ++ (found (mode.step c) rest).map Symbol.glyph := by
  obtain ⟨-, -, -, hs⟩ := byte_plain h
  rw [found, next_plain h, List.map_append, Mode.keeps]
  split
  · rw [hs]
  · rfl

/-- A byte of a character of several bytes does nothing to the scan. -/
theorem next_high {b : UInt8} (h : 0x80 ≤ b.toNat) (mode : Mode) :
    mode.next b = mode ∧ Symbol.ofByte? b = none := by
  have hlt : b.toNat - 0x80 < 0x80 := by
    have := b.toNat_lt
    omega
  have table := high_table ⟨b.toNat - 0x80, hlt⟩
  rw [Nat.add_sub_cancel' h, UInt8.ofNat_toNat] at table
  obtain ⟨ht, hc, hn, hs⟩ := table
  refine ⟨?_, hs⟩
  cases mode <;> simp [Mode.next, ht, hc, hn]

/-- Bytes that belong to characters of several bytes are passed over. -/
private theorem found_high {input : List UInt8} (h : ∀ b ∈ input, 0x80 ≤ b.toNat) (mode : Mode)
    (rest : List UInt8) : found mode (input ++ rest) = found mode rest := by
  induction input with
  | nil => rfl
  | cons b input ih =>
    obtain ⟨hm, hs⟩ := next_high (h b List.mem_cons_self) mode
    rw [List.cons_append, found, hm, hs, ih fun other ho => h other (List.mem_cons_of_mem b ho)]
    simp

private theorem keeps_of_not_plain {c : Char} (h : ¬Text.Plain c) (mode : Mode) :
    mode.step c = mode ∧ mode.keeps c = [] := by
  have hne {other : Char} (ho : Text.Plain other) : c ≠ other := by
    rintro rfl
    exact h ho
  have hmem : c ∉ Symbol.alphabet := fun hc => h (Symbol.plain_of_mem_alphabet hc)
  constructor
  · have ht : c ≠ '~' := hne (by decide)
    have hc : c ≠ ';' := hne (by decide)
    have hn : c ≠ '\n' := hne (by decide)
    cases mode <;> simp [Mode.step, ht, hc, hn]
  · simp [Mode.keeps, hmem]

/-- A character of a text does to the scan what its bytes do. -/
private theorem found_encode (c : Char) (mode : Mode) (rest : List UInt8) :
    (found mode (String.utf8EncodeChar c ++ rest)).map Symbol.glyph =
      (mode.step c).keeps c ++ (found (mode.step c) rest).map Symbol.glyph := by
  by_cases h : Text.Plain c
  · rw [Text.utf8EncodeChar_of_plain h, List.singleton_append, found_plain h]
  · rw [found_high fun b hb => Text.high_of_mem_utf8EncodeChar h hb]
    obtain ⟨hm, hk⟩ := keeps_of_not_plain h mode
    rw [hm, hk, List.nil_append]

/-- The code of a text that follows a place reached in some mode. -/
def codeFrom (mode : Mode) (text : List Char) : List Char :=
  match mode with
  | .code => Text.code text
  | .comment => (Text.codeLines text).tail.flatMap Text.lineCode
  | .ended => []

theorem codeFrom_nil (mode : Mode) : codeFrom mode [] = [] := by
  cases mode <;> rfl

private theorem codeLines_terminator (rest : List Char) : Text.codeLines ('~' :: rest) = [[]] := by
  simp [Text.codeLines]

private theorem codeLines_newline (rest : List Char) :
    Text.codeLines ('\n' :: rest) = [] :: Text.codeLines rest := by
  simp [Text.codeLines, List.splitOn_cons_eq_if_modifyHead]

private theorem codeLines_cons {c : Char} (ht : c ≠ '~') (hn : c ≠ '\n') (rest : List Char) :
    ∃ first more, Text.codeLines rest = first :: more ∧
      Text.codeLines (c :: rest) = (c :: first) :: more := by
  obtain ⟨first, more, hl⟩ := List.exists_cons_of_ne_nil
    (List.splitOn_ne_nil '\n' (rest.takeWhile (· != '~')))
  refine ⟨first, more, hl, ?_⟩
  simp [Text.codeLines, ht, hn, List.splitOn_cons_eq_if_modifyHead, hl]

private theorem lineCode_comment (rest : List Char) : Text.lineCode (';' :: rest) = [] := by
  simp [Text.lineCode]

private theorem lineCode_cons {c : Char} (h : c ≠ ';') (rest : List Char) :
    Text.lineCode (c :: rest) = [c].filter (· ∈ Symbol.alphabet) ++ Text.lineCode rest := by
  rw [Text.lineCode, List.takeWhile_cons_of_pos (by simpa using h), ← List.singleton_append,
    List.filter_append, Text.lineCode]

/-- The code of a text line by line is found character by character, as the scan finds it. -/
theorem codeFrom_cons (mode : Mode) (c : Char) (rest : List Char) :
    codeFrom mode (c :: rest) = (mode.step c).keeps c ++ codeFrom (mode.step c) rest := by
  by_cases ht : c = '~'
  · subst ht
    cases mode <;> simp [codeFrom, Text.code, codeLines_terminator, Text.lineCode, Mode.step,
      Mode.keeps]
  · by_cases hn : c = '\n'
    · subst hn
      cases mode <;> simp [codeFrom, Text.code, codeLines_newline, Text.lineCode, Mode.step,
        Mode.keeps, Symbol.alphabet]
    · obtain ⟨first, more, hrest, hline⟩ := codeLines_cons ht hn rest
      by_cases hc : c = ';'
      · subst hc
        cases mode <;> simp [codeFrom, Text.code, hrest, hline, lineCode_comment, Mode.step,
          Mode.keeps]
      · cases mode <;> simp [codeFrom, Text.code, hrest, hline, lineCode_cons hc, Mode.step,
          Mode.keeps, ht, hn, hc]

private theorem map_found (mode : Mode) (text : List Char) :
    (found mode (text.flatMap String.utf8EncodeChar)).map Symbol.glyph = codeFrom mode text := by
  induction text generalizing mode with
  | nil => rw [codeFrom_nil]; rfl
  | cons c rest ih => rw [List.flatMap_cons, found_encode, ih, codeFrom_cons]

end Scan

namespace Program

/-- The text form of a program found line by line. -/
theorem toList_textOf (source : String) :
    (textOf source).toList = Text.code source.toList ++ [endGlyph] := by
  rw [textOf, text, String.toList_ofList, glyphs, ofSource, Scan.ofSource, Scan.filterMap_items,
    Text.bytes, Scan.map_found]
  rfl

/-- A text form is its own text form. -/
theorem textOf_text (program : Program) : textOf program.text = program.text := by
  have h := ofSource_text_append program []
  rw [List.append_nil] at h
  rw [textOf, h]

/-- A text form has one terminator, at its end. -/
theorem count_endGlyph (program : Program) :
    program.text.toList.count endGlyph = 1 ∧ program.text.toList.getLast? = some endGlyph := by
  have hn : endGlyph ∉ program.symbols.toList.map Symbol.glyph := by
    intro hm
    obtain ⟨symbol, -, hs⟩ := List.mem_map.mp hm
    exact symbol.glyph_ne_endGlyph hs
  rw [text, String.toList_ofList, glyphs, List.count_append, List.count_eq_zero.mpr hn]
  simp

end Program

namespace Text

/-- Lines can be read apart. -/
theorem code_append_newline {first : List Char} (h : '~' ∉ first) (second : List Char) :
    code (first ++ '\n' :: second) = code first ++ code second := by
  have hall : ∀ c ∈ first, (c != '~') = true := by
    intro c hc
    simp only [bne_iff_ne, ne_eq]
    rintro rfl
    exact h hc
  have hself : first.takeWhile (· != '~') = first := List.takeWhile_eq_self_iff.mpr hall
  have hsplit : codeLines (first ++ '\n' :: second) = codeLines first ++ codeLines second := by
    rw [codeLines, List.takeWhile_append_of_pos hall, List.takeWhile_cons_of_pos (by decide),
      List.splitOn_append_cons_self, codeLines, hself, codeLines]
  rw [code, hsplit, List.flatMap_append, code, code]

end Text

/-- The program that a text writes is found line by line: of the text before the first terminator
every line is cut at its first comment mark, and the characters of the alphabet are kept; a
terminator follows. So the text form of a program is its own text form and has one terminator, at
its end, and lines before the terminator can be read apart. -/
theorem text_form_by_lines (source : String) :
    let textOf := Program.textOf
    (textOf source).toList = Text.code source.toList ++ ['~'] ∧
      textOf (textOf source) = textOf source ∧
      ((textOf source).toList.count '~' = 1 ∧ (textOf source).toList.getLast? = some '~') ∧
      ∀ first second : String, '~' ∉ first.toList →
        (textOf (first ++ "\n" ++ second)).toList =
          (textOf first).toList.dropLast ++ (textOf second).toList := by
  intro textOf
  refine ⟨Program.toList_textOf source, Program.textOf_text _, Program.count_endGlyph _, ?_⟩
  intro first second h
  have happ : (first ++ "\n" ++ second).toList = first.toList ++ '\n' :: second.toList := by
    simp
  rw [Program.toList_textOf, happ, Text.code_append_newline h, Program.toList_textOf,
    Program.toList_textOf, List.dropLast_concat, List.append_assoc]

/-- Two lines with comments, prose and characters of several bytes, the second with a terminator in
its comment. -/
theorem text_form_by_lines_comments :
    let first := "é+;->\r"
    let second := "a.*0^3;~é+"
    '~' ∉ first.toList ∧
      (Program.textOf first).toList = ['+', '~'] ∧
      (Program.textOf (first ++ "\n" ++ second)).toList =
        (Program.textOf first).toList.dropLast ++ (Program.textOf second).toList := by
  intro first second
  have h : '~' ∉ first.toList := by decide
  obtain ⟨htext, -, -, happend⟩ := text_form_by_lines first
  exact ⟨h, htext.trans (by decide), happend first second h⟩

end ScrewLang
