import ScrewLang.Proofs.Source.CodeLines
import ScrewLang.Proofs.Source.Grammar
import ScrewLang.Proofs.Source.Similar
import ScrewLang.Repl.Submission

/-!
# The terminator added to a submission

A submission without a terminator gets one on a line of its own, after its trailing blanks have been
cut off. Neither changes what is found in it: blanks are no instructions, whether a comment is open
there or not, and everything else stays where it was. So the program is the same, and so are the
faults, with their places.
-/

namespace ScrewLang

namespace Scan

variable {related : Location → Location → Prop} {items others : List Item}
  {source tail other : List UInt8}

/-! ### Texts that differ behind their last instruction -/

/-- None of some bytes writes a symbol. -/
def Silent (input : List UInt8) : Prop :=
  ∀ b ∈ input, Symbol.ofByte? b = none

theorem Silent.append (ht : Silent tail) (ho : Silent other) : Silent (tail ++ other) := by
  intro b hb
  rcases List.mem_append.mp hb with hb | hb
  · exact ht b hb
  · exact ho b hb

/-- What is found in silent bytes writes no symbol. -/
theorem Silent.of_mem_onward {location : Location} {mode : Mode} {item : Item} (h : Silent source)
    (hm : item ∈ (onward location mode source).items) : Symbol.ofByte? item.byte = none := by
  obtain ⟨k, -, hk⟩ := exists_offset_of_mem_onward hm
  exact h item.byte (List.mem_of_getElem? hk)

/-- Code bytes that write no symbols correspond, however many there are. -/
theorem Corresponds.of_silent (hi : ∀ item ∈ items, Symbol.ofByte? item.byte = none)
    (ho : ∀ item ∈ others, Symbol.ofByte? item.byte = none) : Corresponds related items others := by
  induction items with
  | cons item items ih =>
    have hrest := ih fun next hn => hi next (List.mem_cons_of_mem item hn)
    exact .left (hi item List.mem_cons_self) hrest
  | nil =>
    induction others with
    | nil => exact .nil
    | cons item others ih =>
      have hrest := ih fun next hn => ho next (List.mem_cons_of_mem item hn)
      exact .right (ho item List.mem_cons_self) hrest

/-- Texts that differ in silent bytes at their ends have the same instructions at the same places. -/
theorem corresponds_silent_ends (source : List UInt8) (ht : Silent tail) (ho : Silent other) :
    Corresponds Eq (ofSource (source ++ tail)).items (ofSource (source ++ other)).items := by
  simp only [ofSource, items_append]
  refine .append (.refl fun _ _ => rfl) (.of_silent ?_ ?_)
  · exact fun item hm => ht.of_mem_onward hm
  · exact fun item hm => ho.of_mem_onward hm

end Scan

/-- Texts with the same instructions at the same places write the same program. -/
theorem Program.ofSource_eq_of_corresponds {source other : List UInt8}
    (h : Scan.Corresponds Eq (Scan.ofSource source).items (Scan.ofSource other).items) :
    ofSource source = ofSource other := by
  rw [ofSource, h.symbols, ofSource]

/-- Texts with the same instructions at the same places have the same braces without partner. -/
theorem Validation.checkBraces_eq_of_corresponds {source other : List UInt8}
    (h : Scan.Corresponds Eq (Scan.ofSource source).items (Scan.ofSource other).items) :
    checkBraces source = checkBraces other := by
  have ho : ∀ pair ∈ ([] : List (Location × Location)), pair.1 = pair.2 := by simp
  exact (agree_balance h ho).eq

/-- Silent bytes without a NUL byte before a terminator do not matter to compilation. -/
theorem Validation.similar_silent_ends {source tail other : List UInt8}
    (hs : Scan.terminator ∉ source) (ht : Scan.Silent tail) (ho : Scan.Silent other)
    (htn : 0 ∉ tail) (hon : 0 ∉ other)
    (hterm : Scan.terminator ∈ tail ↔ Scan.terminator ∈ other) :
    Similar Eq (source ++ tail) (source ++ other) where
  terminator := by simp [hterm]
  nul := by
    rw [firstNul_append hs, firstNul_append hs, firstNul_eq_none htn, firstNul_eq_none hon]
    cases (firstNul .start source).or none with
    | none => exact .none
    | some location => exact .some rfl
  code := Scan.corresponds_silent_ends source ht ho

namespace Text

/-! ### Blanks at the end of a text -/

/-- What is cut off the end of a text is blank. -/
theorem exists_blanks (text : List Char) :
    ∃ blanks, text = trimEnd text ++ blanks ∧ ∀ c ∈ blanks, isBlank c = true := by
  refine ⟨(text.reverse.takeWhile isBlank).reverse, ?_, ?_⟩
  · rw [trimEnd, ← List.reverse_append, List.takeWhile_append_dropWhile, List.reverse_reverse]
  · intro c hc
    exact List.mem_takeWhile_imp (List.mem_reverse.mp hc)

private theorem blank_table : ∀ i : Fin 0x80, isBlank (Char.ofNat i.val) = true →
    Symbol.ofByte? (UInt8.ofNat i.val) = none ∧ UInt8.ofNat i.val ≠ 0 := by
  decide +kernel

/-- No byte of a blank writes a symbol, and none is NUL. -/
theorem silent_of_blank {c : Char} {b : UInt8} (h : isBlank c = true)
    (hb : b ∈ String.utf8EncodeChar c) : Symbol.ofByte? b = none ∧ b ≠ 0 := by
  by_cases hc : Plain c
  · rw [utf8EncodeChar_of_plain hc, List.mem_singleton] at hb
    have table := blank_table ⟨c.toNat, hc⟩
    rw [Char.ofNat_toNat] at table
    rw [hb]
    exact table h
  · have hhigh := high_of_mem_utf8EncodeChar hc hb
    refine ⟨(Scan.next_high hhigh .code).2, ?_⟩
    rintro rfl
    exact absurd hhigh (by decide)

end Text

namespace Submission

variable {submission : String}

theorem terminate_of_mem (h : '~' ∈ submission.toList) : terminate submission = submission := by
  simp [terminate, h]

theorem mem_terminate (submission : String) : '~' ∈ (terminate submission).toList := by
  by_cases h : '~' ∈ submission.toList
  · rwa [terminate_of_mem h]
  · simp [terminate, h]

/-- What stands behind the last instruction of a completed submission: a newline and a terminator. -/
private def closing : List UInt8 :=
  [newline, Scan.terminator]

private theorem closing_spec :
    Scan.Silent closing ∧ 0 ∉ closing ∧ Scan.terminator ∈ closing := by
  refine ⟨?_, by decide, by decide⟩
  intro b hb
  simp only [closing, List.mem_cons, List.not_mem_nil, or_false] at hb
  rcases hb with rfl | rfl
  · rfl
  · rfl

/-- A submission without a terminator, and what it becomes, differ in blanks behind its text. -/
private theorem exists_bytes (h : '~' ∉ submission.toList) :
    ∃ body blanks, Text.bytes submission = body ++ blanks ∧
      Text.bytes (submission ++ "\n~") = body ++ (blanks ++ closing) ∧
      Text.bytes (terminate submission) = body ++ closing ∧
      Scan.Silent blanks ∧ 0 ∉ blanks := by
  obtain ⟨blanks, hsplit, hblank⟩ := Text.exists_blanks submission.toList
  have hclosing : ['\n', '~'].flatMap String.utf8EncodeChar = closing := by decide
  have hbytes : ∀ b ∈ blanks.flatMap String.utf8EncodeChar, Symbol.ofByte? b = none ∧ b ≠ 0 := by
    intro b hb
    obtain ⟨c, hc, hb⟩ := List.mem_flatMap.mp hb
    exact Text.silent_of_blank (hblank c hc) hb
  have hbody : Text.bytes submission =
      (Text.trimEnd submission.toList).flatMap String.utf8EncodeChar ++
        blanks.flatMap String.utf8EncodeChar := by
    rw [← List.flatMap_append, ← hsplit, Text.bytes]
  refine ⟨_, _, hbody, ?_, ?_, fun b hb => (hbytes b hb).1, fun hb => (hbytes 0 hb).2 rfl⟩
  · rw [Text.bytes, String.toList_append, List.flatMap_append, ← List.append_assoc, ← hbody,
      ← hclosing]
    rfl
  · simp [Text.bytes, terminate, h, ← hclosing]

end Submission

/-- Adding a terminator to a submission is transparent. The completed submission has a terminator
and is not completed further; it writes the program that the submission writes, and its braces are
found wanting where those of the submission are. It is never rejected for want of a terminator, and
compiles as the whole submission does with a terminator on a line of its own: to the same program or
with the same fault at the same place. -/
theorem added_terminator_is_transparent (submission : String) :
    '~' ∈ (Submission.terminate submission).toList ∧
      let complete := Submission.terminate submission
      Submission.terminate complete = complete ∧
      Program.ofSource (Text.bytes complete) = Program.ofSource (Text.bytes submission) ∧
      Validation.checkBraces (Text.bytes complete) =
        Validation.checkBraces (Text.bytes submission) ∧
      Program.compile (Text.bytes complete) ≠ .error .missingTerminator ∧
      ('~' ∉ submission.toList → Program.compile (Text.bytes complete) =
        Program.compile (Text.bytes (submission ++ "\n~"))) := by
  have hmem := Submission.mem_terminate submission
  refine ⟨hmem, ?_⟩
  intro complete
  have hnever : Program.compile (Text.bytes complete) ≠ .error .missingTerminator := by
    intro hc
    have hterm : Scan.terminator ∈ Text.bytes complete :=
      (Text.mem_bytes_iff (by decide) complete).mpr hmem
    rw [Program.compile_eq_error_iff, Validation.validate_eq_error_iff,
      Validation.checkTerminator_eq_error_iff, Validation.checkBraces_eq_error_iff] at hc
    simp [hterm] at hc
  refine ⟨Submission.terminate_of_mem hmem, ?_⟩
  by_cases h : '~' ∈ submission.toList
  · have hself : complete = submission := Submission.terminate_of_mem h
    rw [hself] at hnever ⊢
    exact ⟨rfl, rfl, hnever, fun hn => absurd h hn⟩
  · obtain ⟨body, blanks, hbytes, hwhole, hcomplete, hsilent, hnul⟩ := Submission.exists_bytes h
    have hbody : Scan.terminator ∉ body := by
      have hn : Scan.terminator ∉ Text.bytes submission := by
        rwa [← Text.mem_bytes_iff (d := '~') (by decide)] at h
      rw [hbytes, List.mem_append, not_or] at hn
      exact hn.1
    obtain ⟨hcs, hcn, hct⟩ := Submission.closing_spec
    have hsame : Scan.Corresponds Eq (Scan.ofSource (Text.bytes complete)).items
        (Scan.ofSource (Text.bytes submission)).items := by
      rw [hcomplete, hbytes]
      exact Scan.corresponds_silent_ends body hcs hsilent
    refine ⟨Program.ofSource_eq_of_corresponds hsame,
      Validation.checkBraces_eq_of_corresponds hsame, hnever, fun _ => ?_⟩
    rw [hcomplete, hwhole]
    refine (Validation.similar_silent_ends hbody hcs (hsilent.append hcs) hcn ?_ ?_).compile.eq
    · simp [hnul, hcn]
    · simp [hct]

/-- A closing brace, then a comment that is still open where blanks of one, two and three bytes are
cut off, the newline behind the comment among them. -/
theorem added_terminator_is_transparent_open_comment :
    let submission := "+\n\x7d ;é \u3000\r\n\u00A0"
    '~' ∉ submission.toList ∧ Submission.terminate submission = "+\n\x7d ;é\n~" ∧
      Program.compile (Text.bytes (Submission.terminate submission)) =
        Program.compile (Text.bytes (submission ++ "\n~")) ∧
      Program.compile (Text.bytes (submission ++ "\n~")) =
        .error (.unbalancedBraces .closing ⟨⟨2, 1⟩, 2⟩) := by
  intro submission
  have h : '~' ∉ submission.toList := by decide
  obtain ⟨-, -, -, -, -, hcompile⟩ := added_terminator_is_transparent submission
  exact ⟨h, by decide +kernel, hcompile h, by decide +kernel⟩

end ScrewLang
