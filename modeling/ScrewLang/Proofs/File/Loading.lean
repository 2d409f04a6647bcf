import ScrewLang.File.Source
import ScrewLang.Proofs.Source.Similar
import ScrewLang.Proofs.Source.CodeLines
import ScrewLang.Proofs.Text.Decoding

/-!
# Loading keeps the program

A source file may hold any bytes, and what is no text is replaced when it is loaded. All that
matters to compilation are bytes that are characters of their own, and loading keeps these. So the
loaded text writes the program that the bytes of the file write, and a fault in one is a fault in
the other, on the same line.
-/

namespace ScrewLang

/-- Two places on the same line. -/
def Location.SameLine (a b : Location) : Prop :=
  a.line = b.line

namespace Text

variable {a b : UInt8} {input other : List UInt8}

/-- The text with one character for every byte, that with the value of the byte. -/
def latin (input : List UInt8) : List Char :=
  input.map fun b => Char.ofNat b.toNat

/-- Byte strings that differ only in bytes that are no characters of their own. -/
inductive SamePlain : List UInt8 → List UInt8 → Prop where
  | nil : SamePlain [] []
  | left {b : UInt8} {input other : List UInt8} (h : 0x80 ≤ b.toNat)
      (rest : SamePlain input other) : SamePlain (b :: input) other
  | right {b : UInt8} {input other : List UInt8} (h : 0x80 ≤ b.toNat)
      (rest : SamePlain input other) : SamePlain input (b :: other)
  | both (b : UInt8) {input other : List UInt8} (rest : SamePlain input other) :
      SamePlain (b :: input) (b :: other)

theorem plainBytes_cons_of_high (h : 0x80 ≤ b.toNat) (input : List UInt8) :
    plainBytes (b :: input) = plainBytes input :=
  List.filter_cons_of_neg (by simpa [UInt8.lt_iff_toNat_lt] using h)

theorem plainBytes_cons_of_plain (h : b.toNat < 0x80) (input : List UInt8) :
    plainBytes (b :: input) = b :: plainBytes input :=
  List.filter_cons_of_pos (by simpa [UInt8.lt_iff_toNat_lt] using h)

theorem samePlain_nil (h : plainBytes input = []) : SamePlain [] input := by
  induction input with
  | nil => exact .nil
  | cons b input ih =>
    by_cases hb : 0x80 ≤ b.toNat
    · rw [plainBytes_cons_of_high hb] at h
      exact .right hb (ih h)
    · rw [plainBytes_cons_of_plain (by omega)] at h
      cases h

/-- A byte that is a character of its own is found again, behind others that are not. -/
theorem samePlain_cons (ha : a.toNat < 0x80)
    (ih : ∀ other, plainBytes input = plainBytes other → SamePlain input other)
    (h : plainBytes (a :: input) = plainBytes other) : SamePlain (a :: input) other := by
  induction other with
  | nil =>
    rw [plainBytes_cons_of_plain ha] at h
    cases h
  | cons b other ihr =>
    by_cases hb : 0x80 ≤ b.toNat
    · rw [plainBytes_cons_of_high hb] at h
      exact .right hb (ihr h)
    · rw [plainBytes_cons_of_plain ha, plainBytes_cons_of_plain (by omega)] at h
      obtain ⟨rfl, hrest⟩ := List.cons.inj h
      exact .both a (ih other hrest)

theorem samePlain_of_eq (h : plainBytes input = plainBytes other) : SamePlain input other := by
  induction input generalizing other with
  | nil => exact samePlain_nil h.symm
  | cons a input ih =>
    by_cases ha : 0x80 ≤ a.toNat
    · rw [plainBytes_cons_of_high ha] at h
      exact .left ha (ih h)
    · exact samePlain_cons (by omega) (fun _ => ih) h

/-- A text with one character for every byte has the plain bytes it was made of. -/
theorem plainBytes_latin (content : List UInt8) :
    plainBytes (bytes (String.ofList (latin content))) = plainBytes content := by
  rw [bytes, String.toList_ofList]
  induction content with
  | nil => rfl
  | cons b rest ih =>
    rw [latin, List.map_cons, List.flatMap_cons, plainBytes_append]
    by_cases hb : 0x80 ≤ b.toNat
    · have hlt := b.toNat_lt
      have hvalid : b.toNat.isValidChar := .inl (by omega)
      have hplain : ¬Plain (Char.ofNat b.toNat) := by
        rw [Plain, toNat_ofNat_of_valid hvalid]
        omega
      rw [plainBytes_eq_nil fun _ hx => high_of_mem_utf8EncodeChar hplain hx,
        plainBytes_cons_of_high hb]
      exact ih
    · rw [(Spelled.one (by omega) rfl).encode, plainBytes_cons_of_plain (by omega),
        plainBytes_cons_of_plain (by omega)]
      exact congrArg (b :: ·) ih

end Text

namespace Validation

open Text (SamePlain)

variable {source other : List UInt8} {first second : Location} {b x : UInt8}

private theorem ne_of_high (hb : 0x80 ≤ b.toNat) (hx : x.toNat < 0x80) : b ≠ x := by
  rintro rfl
  omega

private theorem sameLine_advance_left (h : first.SameLine second) (hb : 0x80 ≤ b.toNat) :
    (first.advance b).SameLine second :=
  (Location.line_advance (ne_of_high hb (by decide))).trans h

private theorem sameLine_advance_right (h : first.SameLine second) (hb : 0x80 ≤ b.toNat) :
    first.SameLine (second.advance b) :=
  h.trans (Location.line_advance (ne_of_high hb (by decide))).symm

private theorem sameLine_advance (h : first.SameLine second) (b : UInt8) :
    (first.advance b).SameLine (second.advance b) := by
  show (first.toPosition.advance b).line = (second.toPosition.advance b).line
  have hline : first.line = second.line := h
  simp only [Position.advance]
  split
  · rw [hline]
  · split <;> exact hline

theorem terminator_mem_iff (h : SamePlain source other) :
    Scan.terminator ∈ source ↔ Scan.terminator ∈ other := by
  have hne {b : UInt8} (hb : 0x80 ≤ b.toNat) : Scan.terminator ≠ b :=
    (ne_of_high hb (by decide)).symm
  induction h with
  | nil => rfl
  | left hb _ ih => simp [ih, hne hb]
  | right hb _ ih => simp [ih, hne hb]
  | both b _ ih => simp [ih]

theorem firstNul_of_high (hb : 0x80 ≤ b.toNat) (location : Location) (rest : List UInt8) :
    firstNul location (b :: rest) = firstNul (location.advance b) rest := by
  rw [firstNul, if_neg (ne_of_high hb (by decide)), if_neg (ne_of_high hb (by decide))]

theorem firstNul_samePlain (h : SamePlain source other) (hl : first.SameLine second) :
    Option.Rel Location.SameLine (firstNul first source) (firstNul second other) := by
  induction h generalizing first second with
  | nil => exact .none
  | left hb _ ih =>
    rw [firstNul_of_high hb]
    exact ih (sameLine_advance_left hl hb)
  | right hb _ ih =>
    rw [firstNul_of_high hb]
    exact ih (sameLine_advance_right hl hb)
  | both b _ ih =>
    rw [firstNul, firstNul]
    split
    · exact .none
    · split
      · exact .some hl
      · exact ih (sameLine_advance hl b)

theorem corresponds_samePlain (h : SamePlain source other) (hl : first.SameLine second)
    (mode : Scan.Mode) :
    Scan.Corresponds Location.SameLine (Scan.onward first mode source).items
      (Scan.onward second mode other).items := by
  induction h generalizing first second mode with
  | nil => exact .nil
  | left hb _ ih =>
    obtain ⟨hm, hs⟩ := Scan.next_high hb mode
    have hrest := ih (sameLine_advance_left hl hb) mode
    rw [Scan.onward, hm]
    split
    · exact .left hs hrest
    · exact hrest
  | right hb _ ih =>
    obtain ⟨hm, hs⟩ := Scan.next_high hb mode
    have hrest := ih (sameLine_advance_right hl hb) mode
    rw [Scan.onward, hm]
    split
    · exact .right hs hrest
    · exact hrest
  | both b _ ih =>
    have hrest := ih (sameLine_advance hl b) (mode.next b)
    simp only [Scan.onward]
    split
    · exact .both rfl hl hrest
    · exact hrest

/-- Byte strings with the same plain bytes are similar, line by line. -/
theorem similar_of_plainBytes_eq (h : Text.plainBytes source = Text.plainBytes other) :
    Similar Location.SameLine source other :=
  have hs := Text.samePlain_of_eq h
  ⟨terminator_mem_iff hs, firstNul_samePlain hs rfl, corresponds_samePlain hs rfl .code⟩

end Validation

/-- Loading a source file keeps its program, whatever its bytes. The loaded text has the bytes of
the file that are characters of their own, in order. So it writes the program that the file writes,
found line by line, and it is valid when the file is, or has a fault of the same kind on the same
line. And a file that encodes a text is loaded as it is. -/
theorem loading_keeps_program {read : String → Except Device.Fault (List UInt8)} {path : String}
    {content : List UInt8} (hname : SourceFile.checkName path = .ok ())
    (hread : read path = .ok content) :
    ∃ text, SourceFile.load read path = .ok text ∧
      Text.plainBytes (Text.bytes text) = Text.plainBytes content ∧
      Program.ofSource (Text.bytes text) = Program.ofSource content ∧
      (Program.textOf text).toList = Text.code (Text.latin content) ++ ['~'] ∧
      Validation.Agree Location.SameLine (Validation.validate (Text.bytes text))
        (Validation.validate content) ∧
      ((∃ valid, Text.bytes valid = content) → Text.bytes text = content) := by
  have hplain := Text.plainBytes_decodeLossy content
  have hsimilar := Validation.similar_of_plainBytes_eq hplain
  have hlatin := Validation.similar_of_plainBytes_eq (Text.plainBytes_latin content)
  refine ⟨Text.decodeLossy content, ?_, hplain, hsimilar.ofSource, ?_, hsimilar.validate, ?_⟩
  · simp only [SourceFile.load, hname, hread]
    rfl
  · have htext : Program.textOf (Text.decodeLossy content) =
        Program.textOf (String.ofList (Text.latin content)) := by
      rw [Program.textOf, Program.textOf, hsimilar.ofSource, hlatin.ofSource]
    rw [htext, Program.toList_textOf, String.toList_ofList]
    rfl
  · rintro ⟨valid, rfl⟩
    rw [Text.decodeLossy_bytes]

/-- A file with a sequence that is cut short by an instruction, a surrogate before a brace without
partner and a first byte before the terminator; and a file that is a text. -/
theorem loading_keeps_program_broken_sequences :
    let path := "a.scw"
    let broken : List UInt8 := [0xE2, 0x82, 0x2B, 0x0A, 0xED, 0xA0, 0x80, 0x7D, 0xF0, 0x7E]
    let whole := Text.bytes "é+~"
    SourceFile.checkName path = .ok () ∧
      (∃ text place, SourceFile.load (fun _ => .ok broken) path = .ok text ∧
        Text.plainBytes (Text.bytes text) = [0x2B, 0x0A, 0x7D, 0x7E] ∧
        (Program.textOf text).toList = ['+', '\x7d', '~'] ∧
        Validation.validate (Text.bytes text) = .error (.unbalancedBraces .closing place) ∧
        place.line = 2) ∧
      ∃ text, SourceFile.load (fun _ => .ok whole) path = .ok text ∧ Text.bytes text = whole := by
  intro path broken whole
  have hname : SourceFile.checkName path = .ok () := by decide
  obtain ⟨text, hload, hplain, -, hcode, hagree, -⟩ :=
    @loading_keeps_program (fun _ => .ok broken) path broken hname rfl
  obtain ⟨same, hsame, -, -, -, -, hvalid⟩ :=
    @loading_keeps_program (fun _ => .ok whole) path whole hname rfl
  have hfault : Validation.validate broken = .error (.unbalancedBraces .closing ⟨⟨2, 2⟩, 7⟩) := rfl
  refine ⟨hname, ?_, same, hsame, hvalid ⟨"é+~", rfl⟩⟩
  rw [hfault] at hagree
  generalize hv : Validation.validate (Text.bytes text) = verdict at hagree
  cases hagree with
  | error moved =>
    cases moved with
    | unbalancedBraces side hline =>
      exact ⟨text, _, hload, hplain.trans (by decide), hcode.trans (by decide), hv, hline⟩

end ScrewLang
