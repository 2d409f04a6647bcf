import ScrewLang.Proofs.Machine.Synchrony
import ScrewLang.Proofs.Program.TextForm
import ScrewLang.Proofs.Source.Grammar
import ScrewLang.Proofs.Source.Positions
import ScrewLang.Report.Message

/-!
# The caret below the culprit

A message ends with a row of text and a row with a caret. However the text is cut to the window that
is shown, the caret stands right below the character that the message is about: below the brace or
NUL character of a source text that is rejected, and below the instruction at which a run fails.
-/

namespace ScrewLang

/-! ### The window -/

namespace Report

/-- A printed text ends with two rows: a piece of a text, indented by two blanks, and a caret. The
character above the caret is the one at a place of the text, the culprit. -/
def Underlines (caret printed : String) (text : List Char) (place : Nat) (culprit : Char) : Prop :=
  ∃ rows before front back behind : List Char,
    text = before ++ (front ++ culprit :: back) ++ behind ∧
    before.length + front.length = place ∧
    '\n' ∉ front ++ culprit :: back ∧
    printed.toList = rows ++ '\n' :: ([' ', ' '] ++ front ++ culprit :: back) ++
      '\n' :: (List.replicate (2 + front.length) ' ' ++ caret.toList) ++ ['\n']

/-- What is around a place of a text: the character there, and at most `reach` on either side. -/
theorem surroundings_append (front back : List Char) (c : Char) :
    surroundings (front ++ c :: back) front.length =
      front.drop (front.length - reach) ++ c :: back.take reach := by
  rw [surroundings_eq, Nat.add_assoc, List.take_length_add_append, List.take_succ_cons,
    List.drop_append_of_le_length (Nat.sub_le _ _)]

/-- The caret of a window stands below the place that the window is made for. -/
theorem underlines_window {text : List Char} {place : Nat} {c : Char} (style : Style)
    (heading : String) (hc : text[place]? = some c) (hn : '\n' ∉ text) :
    Underlines style.caret (heading ++ "\n" ++ window style text place) text place c := by
  obtain ⟨front, back, rfl, rfl⟩ :
      ∃ front back, text = front ++ c :: back ∧ front.length = place := by
    obtain ⟨hl, rfl⟩ := List.getElem?_eq_some_iff.mp hc
    exact ⟨text.take place, text.drop (place + 1), by simp, by simp [Nat.le_of_lt hl]⟩
  have hsplit : front ++ c :: back = front.take (front.length - reach) ++
      (front.drop (front.length - reach) ++ c :: back.take reach) ++ back.drop reach := by
    rw [← List.append_assoc, List.take_append_drop, List.append_assoc, List.cons_append,
      List.take_append_drop]
  have hfront : (front.drop (front.length - reach)).length = min front.length reach := by
    rw [List.length_drop]
    omega
  refine ⟨heading.toList, _, _, _, _, hsplit, ?_, ?_, ?_⟩
  · rw [List.length_take, hfront]
    omega
  · intro hm
    apply hn
    rw [hsplit]
    exact List.mem_append_left _ (List.mem_append_right _ hm)
  · have hblanks : List.replicate (2 + min front.length reach) ' ' =
        [' ', ' '] ++ List.replicate (min front.length reach) ' ' :=
      List.replicate_append_replicate.symm
    simp [window, surroundings_append, hfront, hblanks]

end Report

/-! ### Rejected texts -/

/-- The character that a fault points at. -/
def Validation.Fault.culprit? : Fault → Option Char
  | .missingTerminator => none
  | .embeddedNul _ => some '\x00'
  | .unbalancedBraces brace _ => some brace.glyph

/-- A brace is written by a plain character that ends no line. -/
theorem Brace.plain_glyph (brace : Brace) :
    Text.Plain brace.glyph ∧ brace.glyph ≠ '\n' ∧ brace.glyph ≠ '\r' := by
  cases brace <;> decide

theorem Brace.ofByte?_eq_some {b : UInt8} {brace : Brace} (h : ofByte? b = some brace) :
    b = UInt8.ofNat brace.glyph.toNat := by
  unfold ofByte? at h
  split at h
  · next hb => cases h; exact hb
  · split at h
    · next hb => cases h; exact hb
    · cases h

/-- A place that a fault points at holds the byte of the culprit. -/
theorem Validation.exists_culprit {source : List UInt8} {fault : Fault} {location : Location}
    (h : validate source = .error fault) (hl : fault.location? = some location) :
    ∃ culprit offset, fault.culprit? = some culprit ∧ location = .ofOffset source offset ∧
      source[offset]? = some (UInt8.ofNat culprit.toNat) ∧
      Text.Plain culprit ∧ culprit ≠ '\n' ∧ culprit ≠ '\r' := by
  rw [validate_eq_error_iff, checkTerminator_eq_error_iff, checkBraces_eq_error_iff] at h
  rcases h with (⟨-, rfl⟩ | ⟨-, offset, rfl, hnul, -⟩) | ⟨-, brace, offset, rfl, -, hbrace⟩
  · cases hl
  · cases hl
    exact ⟨'\x00', offset, rfl, rfl, hnul.1, by decide⟩
  · cases hl
    refine ⟨brace.glyph, offset, rfl, rfl, ?_, brace.plain_glyph⟩
    simp only [braceWord, List.getElem?_mapIdx, Option.map_eq_some_iff] at hbrace
    obtain ⟨b, hb, hvisible⟩ := hbrace
    split at hvisible
    · rw [hb, Brace.ofByte?_eq_some hvisible]
    · cases hvisible

/-- In the line that a message shows, the caret stands below a character at the location named. -/
theorem Report.underlines_lineContext {source : String} {offset : Nat} {c : Char}
    (hp : Text.Plain c) (hn : c ≠ '\n') (hr : c ≠ '\r')
    (h : (Text.bytes source)[offset]? = some (UInt8.ofNat c.toNat)) (style : Style) :
    ∃ before line after place, source.toList = before ++ line ++ after ∧
      Text.IsLine before line after ∧
      Text.byteOffset source.toList (before.length + place) = offset ∧
      Underlines style.caret (lineContext style source.toList
        (Location.ofOffset (Text.bytes source) offset).toPosition) line place c := by
  obtain ⟨before, front, back, after, hsource, hline, hoffset, hposition⟩ :=
    Location.exists_line_of_plain hp hn h
  refine ⟨before, front ++ c :: back, after, front.length, hsource, hline, hoffset, ?_⟩
  obtain ⟨cut, hshown, hcut⟩ := hline.exists_shown
  rw [← hsource] at hshown
  generalize hs : (Text.lines source.toList).getD (before.count '\n') [] = shown at hshown
  -- a carriage return that is not shown stands behind the character, which is none
  have hlt : front.length < shown.length := by
    apply Nat.lt_of_not_le
    intro hle
    have hc : (front ++ c :: back)[front.length]? = some c := by simp
    rw [← hshown, List.getElem?_append_right hle] at hc
    exact hr (hcut c (List.mem_of_getElem? hc))
  have hc : shown[front.length]? = some c := by
    have hwhole : (shown ++ cut)[front.length]? = some c := by simp [hshown]
    rwa [List.getElem?_append_left hlt] at hwhole
  have hsingle : '\n' ∉ shown := by
    intro hm
    apply hline.single
    rw [← hshown]
    exact List.mem_append_left cut hm
  let heading := "  --> line " ++ Nat.repr (before.count '\n' + 1) ++ ", column " ++
    Nat.repr (front.length + 1)
  have hcontext : lineContext style source.toList ⟨before.count '\n' + 1, front.length + 1⟩ =
      heading ++ "\n" ++ window style shown front.length := by
    rw [← hs]
    rfl
  obtain ⟨rows, left, first, second, right, htext, hplace, hrow, hprinted⟩ :=
    underlines_window style heading hc hsingle
  refine ⟨rows, left, first, second, right ++ cut, ?_, hplace, hrow, ?_⟩
  · rw [← hshown, htext, List.append_assoc]
  · rw [hposition, hcontext, hprinted]

/-! ### Failed runs -/

/-- A brace without partner is a symbol of the program. -/
theorem Program.lt_size_of_unmatched {program : Program} {place : Nat}
    (h : program.jumps = .error place) : place < program.size := by
  have hbrace : ∃ brace, (program.symbols.toList.map Symbol.brace?)[place]? = some (some brace) := by
    rcases Jumps.unmatched_of_table h with hexcess | ⟨-, hunclosed⟩
    · exact ⟨_, hexcess.1.1⟩
    · exact ⟨_, hunclosed.1.1⟩
  obtain ⟨brace, hbrace⟩ := hbrace
  have hlt := (List.getElem?_eq_some_iff.mp hbrace).1
  rwa [List.length_map, Array.length_toList] at hlt

namespace Machine

/-- A fault that names a place names the one at which the run stands. -/
theorem State.place_of_failed {image : Image} {mode : Mode} {controls : Controls} {state : State}
    {fault : Fault} {place : Nat}
    (h : state.round image mode controls = .error (.failed fault))
    (hp : fault.place? = some place) : state.place = place := by
  rcases round_eq_failed_iff.mp h with ⟨-, hc⟩ | ⟨symbol, -, hr | ⟨-, hd⟩⟩
  · obtain ⟨cause, rfl⟩ := eq_of_closing? hc
    exact Option.some.inj hp
  · rcases Controls.eq_of_refusal? hr with rfl | ⟨limit, -, rfl⟩
    · cases hp
    · cases hp
  · rw [place?_of_decision hd] at hp
    exact Option.some.inj hp

/-- A run fails at a place of the program or at its end. -/
theorem place_le_of_failed {machine : Machine} {fuel : Nat} {mode : Mode} {controls : Controls}
    {fault : Fault} {place : Nat} (h : (machine.run fuel mode controls).outcome = .failed fault)
    (hp : fault.place? = some place) : place ≤ machine.program.size := by
  cases hj : machine.program.jumps with
  | error unmatched =>
    rw [run_of_unmatched fuel mode controls hj] at h
    cases h
    cases hp
    exact Nat.le_of_lt (Program.lt_size_of_unmatched hj)
  | ok jumps =>
    obtain ⟨count, state, -, ha, he⟩ := (outcome_run_eq_iff hj (by simp)).mp h
    rw [← State.place_of_failed he hp]
    exact State.place_le_of_after hj (Nat.zero_le machine.program.size) ha

end Machine

/-- Symbols are shown on one line. -/
theorem Program.newline_not_mem_glyphs (program : Program) : '\n' ∉ program.glyphs := by
  intro h
  rcases List.mem_append.mp h with hs | he
  · obtain ⟨symbol, -, hg⟩ := List.mem_map.mp hs
    have hbyte := symbol.utf8EncodeChar_glyph
    rw [hg] at hbyte
    exact symbol.toByte_ordinary.2.2.1 (List.cons.inj hbyte).1.symm
  · cases List.mem_singleton.mp he

/-- The caret of a message stands below what the message is about. For a text that is rejected with
a location, the row above the caret is cut out of the line that holds the byte with that offset, and
the caret stands below the character of this byte: the brace or NUL character that the fault is
about. For a run that fails at an instruction, the row is cut out of the program, and the caret
stands below that instruction. -/
theorem caret_stands_below_culprit :
    (∀ (source : String) (fault : Validation.Fault) (location : Location),
      Validation.validate (Text.bytes source) = .error fault → fault.location? = some location →
      ∃ before line after place culprit, fault.culprit? = some culprit ∧
        source.toList = before ++ line ++ after ∧ Text.IsLine before line after ∧
        Text.byteOffset source.toList (before.length + place) = location.offset ∧
        Report.Underlines "^" (Report.lineContext .plain source.toList location.toPosition) line
          place culprit) ∧
    ∀ (machine : Machine) (fuel : Nat) (mode : Machine.Mode) (controls : Machine.Controls)
      (fault : Machine.Fault) (place : Nat),
      (machine.run fuel mode controls).outcome = .failed fault → fault.place? = some place →
      ∃ instruction, machine.program.glyphs[place]? = some instruction ∧
        ∀ style headline, Report.Underlines style.caret
          (Report.instructionContext style headline machine.program.glyphs place)
          machine.program.glyphs place instruction := by
  constructor
  · intro source fault location hv hl
    obtain ⟨culprit, offset, hculprit, rfl, hbyte, hp, hn, hr⟩ := Validation.exists_culprit hv hl
    obtain ⟨before, line, after, place, hsource, hline, hoffset, hcaret⟩ :=
      Report.underlines_lineContext hp hn hr hbyte .plain
    exact ⟨before, line, after, place, culprit, hculprit, hsource, hline, hoffset, hcaret⟩
  · intro machine fuel mode controls fault place hf hp
    have hlt : place < machine.program.glyphs.length := by
      rw [Program.length_glyphs, Program.length]
      exact Nat.lt_succ_of_le (Machine.place_le_of_failed hf hp)
    have hg := List.getElem?_eq_getElem hlt
    refine ⟨_, hg, fun style headline => ?_⟩
    exact Report.underlines_window style (headline ++ " at instruction " ++ Nat.repr place) hg
      machine.program.newline_not_mem_glyphs

/-- A closing brace without partner on a line of characters of two bytes, longer than the window and
ended by a carriage return and a newline; and a run that leaves the tape at its second
instruction. -/
theorem caret_stands_below_culprit_long_line :
    let source := "+;\x7d\r\néééééééééééééééééééééééééééééééééééééééé\x7d-\r\n~"
    let fault : Validation.Fault := .unbalancedBraces .closing ⟨⟨2, 41⟩, 85⟩
    let machine := Machine.fresh ⟨#[.increment, .left]⟩ 1 .zero (Console.ofInput [])
    (Validation.validate (Text.bytes source) = .error fault ∧
      ∃ before line after place culprit, fault.culprit? = some culprit ∧
        source.toList = before ++ line ++ after ∧ Text.IsLine before line after ∧
        Text.byteOffset source.toList (before.length + place) = 85 ∧
        Report.Underlines "^" (Report.lineContext .plain source.toList ⟨2, 41⟩) line place
          culprit) ∧
    (machine.run 2 .live Machine.Controls.none).outcome =
        .failed (.cursorOutOfBounds 1 0 .left) ∧
      ∃ instruction, machine.program.glyphs[1]? = some instruction ∧
        ∀ style headline, Report.Underlines style.caret
          (Report.instructionContext style headline machine.program.glyphs 1)
          machine.program.glyphs 1 instruction := by
  intro source fault machine
  have hv : Validation.validate (Text.bytes source) = .error fault := by decide +kernel
  have hf : (machine.run 2 .live Machine.Controls.none).outcome =
      .failed (.cursorOutOfBounds 1 0 .left) := rfl
  obtain ⟨hsource, hrun⟩ := caret_stands_below_culprit
  exact ⟨⟨hv, hsource source fault _ hv rfl⟩, hf, hrun machine 2 .live _ _ 1 hf rfl⟩

end ScrewLang
