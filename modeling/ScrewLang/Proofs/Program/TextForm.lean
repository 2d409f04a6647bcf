import ScrewLang.Program.Basic

/-!
# Reading the text form of a program

The text form of a program is its symbols, one byte each, and the terminator. Nothing in it is a
comment, a line end or a NUL byte, so it reads back as the program it was written from, whatever
text follows.
-/

namespace ScrewLang

namespace Symbol

/-- Every symbol is written by one byte. -/
theorem utf8EncodeChar_glyph (symbol : Symbol) :
    String.utf8EncodeChar symbol.glyph = [symbol.toByte] := by
  cases symbol with
  | brace side => cases side <;> rfl
  | digit value => revert value; decide
  | _ => rfl

/-- No symbol is written like the terminator, a comment mark, a line end or a NUL byte. -/
theorem toByte_ordinary (symbol : Symbol) :
    symbol.toByte ≠ Scan.terminator ∧ symbol.toByte ≠ Scan.commentMark ∧
      symbol.toByte ≠ newline ∧ symbol.toByte ≠ 0 := by
  cases symbol with
  | brace side => cases side <;> decide
  | digit value => revert value; decide
  | _ => decide

/-- The terminator shows no symbol. -/
theorem glyph_ne_endGlyph (symbol : Symbol) : symbol.glyph ≠ Program.endGlyph := by
  intro h
  have hb := symbol.utf8EncodeChar_glyph
  rw [h] at hb
  exact symbol.toByte_ordinary.1 (List.cons.inj hb).1.symm

end Symbol

namespace Scan

/-- The scan passes over the bytes of symbols and finds just these symbols. -/
theorem filterMap_onward_symbols (symbols : List Symbol) (location : Location) (rest : List UInt8) :
    ∃ reached, (onward location .code (symbols.map Symbol.toByte ++ rest)).items.filterMap
        (fun item => Symbol.ofByte? item.byte) =
      symbols ++ (onward reached .code rest).items.filterMap
        (fun item => Symbol.ofByte? item.byte) := by
  induction symbols generalizing location with
  | nil => exact ⟨location, rfl⟩
  | cons symbol symbols ih =>
    obtain ⟨reached, hr⟩ := ih (location.advance symbol.toByte)
    obtain ⟨ht, hc, hn, -⟩ := symbol.toByte_ordinary
    have hm : Mode.code.next symbol.toByte = .code := by simp [Mode.next, ht, hc]
    refine ⟨reached, ?_⟩
    rw [List.map_cons, List.cons_append, onward]
    simp only [hm, ne_eq, hn, not_false_eq_true, and_self, ↓reduceIte,
      List.filterMap_cons, symbol.ofByte?_toByte, hr, List.cons_append]

end Scan

namespace Program

/-- The bytes of the text form: one for every symbol, and the terminator. -/
theorem bytes_text (program : Program) :
    Text.bytes program.text = program.symbols.toList.map Symbol.toByte ++ [Scan.terminator] := by
  have hs (symbols : List Symbol) :
      (symbols.map Symbol.glyph).flatMap String.utf8EncodeChar = symbols.map Symbol.toByte := by
    induction symbols with
    | nil => rfl
    | cons symbol symbols ih =>
      rw [List.map_cons, List.flatMap_cons, symbol.utf8EncodeChar_glyph, ih]
      rfl
  rw [Text.bytes, text, String.toList_ofList, glyphs, List.flatMap_append, hs]
  rfl

/-- The text form of a program reads back as the program, whatever follows it. -/
theorem ofSource_text_append (program : Program) (trailing : List UInt8) :
    ofSource (Text.bytes program.text ++ trailing) = program := by
  obtain ⟨reached, hr⟩ := Scan.filterMap_onward_symbols program.symbols.toList .start
    ([Scan.terminator] ++ trailing)
  have hm : Scan.Mode.code.next Scan.terminator = .ended := by decide
  rw [ofSource, Scan.ofSource, bytes_text, List.append_assoc, hr, List.cons_append, Scan.onward]
  simp only [hm, reduceCtorEq, false_and, ↓reduceIte, Scan.onward_ended, List.filterMap_nil,
    List.append_nil]

/-- The text form of a program has a terminator and no NUL byte before it. -/
theorem checkTerminator_text_append (program : Program) (trailing : List UInt8) :
    Validation.checkTerminator (Text.bytes program.text ++ trailing) = .ok () := by
  have hn : ∀ b ∈ program.symbols.toList.map Symbol.toByte, b ≠ Scan.terminator ∧ b ≠ 0 := by
    intro b hb
    obtain ⟨symbol, -, rfl⟩ := List.mem_map.mp hb
    exact ⟨symbol.toByte_ordinary.1, symbol.toByte_ordinary.2.2.2⟩
  rw [bytes_text, List.append_assoc]
  generalize program.symbols.toList.map Symbol.toByte = code at hn
  have ht : (code ++ ([Scan.terminator] ++ trailing)).takeWhile (· != Scan.terminator) = code := by
    rw [List.takeWhile_append_of_pos fun b hb => by simpa using (hn b hb).1]
    simp
  have hz : code.findIdx? (· == 0) = none := by
    rw [List.findIdx?_eq_none_iff]
    intro b hb
    simpa using (hn b hb).2
  rw [Validation.checkTerminator, ht, hz]
  simp [Validation.hasTerminator]

end Program

end ScrewLang
