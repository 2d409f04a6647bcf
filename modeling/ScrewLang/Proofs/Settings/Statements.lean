import ScrewLang.Proofs.Text.Lines
import ScrewLang.Proofs.Text.Trimming
import ScrewLang.Settings.Entries

/-!
# What the lines of a settings file say

The three kinds of line, told by their shape: a header is a name in brackets, an assignment is any
other line with an equals sign that does not begin with `#`, and every other line says nothing. A
line is read as exactly what its shape makes it.
-/

namespace ScrewLang

namespace Text

variable {c : Char} {front text : List Char}

/-! ### The first place of a character -/

theorem takeWhile_bne_append (h : c ∉ front) (rest : List Char) :
    (front ++ c :: rest).takeWhile (· != c) = front := by
  have hf : ∀ d ∈ front, (d != c) = true := by
    intro d hd
    rw [bne_iff_ne]
    rintro rfl
    exact h hd
  rw [List.takeWhile_append_of_pos hf]
  simp

theorem dropWhile_bne_append (h : c ∉ front) (rest : List Char) :
    (front ++ c :: rest).dropWhile (· != c) = c :: rest := by
  have hsplit := List.takeWhile_append_dropWhile (p := (· != c)) (l := front ++ c :: rest)
  rw [takeWhile_bne_append h] at hsplit
  exact List.append_cancel_left hsplit

theorem takeWhile_bne_of_not_mem (h : c ∉ text) : text.takeWhile (· != c) = text := by
  rw [List.takeWhile_eq_self_iff]
  intro d hd
  rw [bne_iff_ne]
  rintro rfl
  exact h hd

end Text

namespace Settings

namespace Statement

variable {line text written : List Char} {heading key value : String}

/-! ### Shapes -/

/-- A header and the section that it opens: a name in brackets. -/
def IsHeader (line : List Char) (heading : String) : Prop :=
  ∃ inner, Text.trim line = '[' :: (inner ++ [']']) ∧ heading = String.ofList (Text.trim inner)

/-- The value that stands to the right of an equals sign: what is between a quote and the next one
or the end of the line, or else what precedes a `#`, if there is one. -/
inductive IsValue (text : List Char) : List Char → Prop
  | closed {written rest : List Char} (shape : Text.trim text = '"' :: (written ++ '"' :: rest))
      (first : '"' ∉ written) : IsValue text written
  | unclosed {written : List Char} (shape : Text.trim text = '"' :: written)
      (none : '"' ∉ written) : IsValue text written
  | commented {front rest : List Char} (bare : (Text.trim text).head? ≠ some '"')
      (shape : text = front ++ '#' :: rest) (first : '#' ∉ front) : IsValue text (Text.trim front)
  | uncommented (bare : (Text.trim text).head? ≠ some '"') (none : '#' ∉ text) :
      IsValue text (Text.trim text)

/-- An assignment, its key and its value: a line with an equals sign that is neither a comment nor a
header. -/
structure IsAssignment (line : List Char) (key value : String) : Prop where
  notComment : (Text.trim line).head? ≠ some '#'
  notHeader : ∀ heading, ¬IsHeader line heading
  sides : ∃ before after, line = before ++ '=' :: after ∧ '=' ∉ before ∧
    key = String.ofList (Text.trim before) ∧ ∃ written, IsValue after written ∧
      value = String.ofList written

/-! ### Values -/

/-- The shape of a value decides how it is read. -/
theorem IsValue.value_eq (h : IsValue text written) : Statement.value text = written := by
  cases h with
  | closed shape first =>
    rw [Statement.value, shape]
    exact Text.takeWhile_bne_append first _
  | unclosed shape none =>
    rw [Statement.value, shape]
    exact Text.takeWhile_bne_of_not_mem none
  | @commented front rest bare shape first =>
    have hfront : '#' ∉ Text.trimStart front := fun hm => first (Text.mem_of_mem_trimStart hm)
    have hvalue : Statement.value text =
        Text.trim ((Text.trim text).takeWhile (· != '#')) := by
      rw [Statement.value]
      split
      · next hq => exact absurd (by rw [hq]; rfl) bare
      · rfl
    rw [hvalue, shape, Text.trim_append_cons (by decide), Text.takeWhile_bne_append hfront,
      Text.trim_trimStart]
  | uncommented bare none =>
    have htext : '#' ∉ Text.trim text := fun hm => none (Text.mem_of_mem_trim hm)
    rw [Statement.value]
    split
    · next hq => exact absurd (by rw [hq]; rfl) bare
    · rw [Text.takeWhile_bne_of_not_mem htext, Text.trim_trim]

/-- Everything to the right of an equals sign has the shape of a value. -/
theorem exists_isValue (text : List Char) : ∃ written, IsValue text written := by
  by_cases hq : (Text.trim text).head? = some '"'
  · obtain ⟨rest, hrest⟩ := List.head?_eq_some_iff.mp hq
    by_cases hclosed : '"' ∈ rest
    · obtain ⟨written, tail, rfl, hw⟩ := List.eq_append_cons_of_mem hclosed
      exact ⟨written, .closed hrest hw⟩
    · exact ⟨rest, .unclosed hrest hclosed⟩
  · by_cases hcomment : '#' ∈ text
    · obtain ⟨front, rest, hsplit, hf⟩ := List.eq_append_cons_of_mem hcomment
      exact ⟨Text.trim front, .commented hq hsplit hf⟩
    · exact ⟨Text.trim text, .uncommented hq hcomment⟩

/-! ### Lines -/

/-- What a line says depends on its content only, without the blanks around it. -/
theorem ofLine_congr {line other : List Char} (h : Text.trim line = Text.trim other) :
    ofLine line = ofLine other := by
  rw [ofLine, h, ofLine]

/-- Blanks at the end of a line do not count, such as the carriage return of its end. -/
theorem ofLine_append_blanks {blanks : List Char} (h : Text.Blanks blanks) (line : List Char) :
    ofLine (line ++ blanks) = ofLine line :=
  ofLine_congr (Text.trim_append_right h line)

/-- The end of a line does not count. -/
theorem ofLine_chomp (line : List Char) : ofLine (Text.chomp (line ++ ['\n'])) = ofLine line := by
  obtain ⟨cut, hcut, hreturn⟩ := Text.exists_chomp_newline line
  have hblank : Text.Blanks cut := by
    intro c hc
    rw [hreturn c hc]
    rfl
  calc
    ofLine (Text.chomp (line ++ ['\n'])) = ofLine (Text.chomp (line ++ ['\n']) ++ cut) :=
      (ofLine_append_blanks hblank _).symm
    _ = ofLine line := by rw [hcut]

theorem ofLine_of_content (hempty : Text.trim line ≠ [])
    (hcomment : (Text.trim line).head? ≠ some '#') : ofLine line = ofContent (Text.trim line) := by
  rw [ofLine]
  split
  · next h => exact absurd h hempty
  · next h => exact absurd (by rw [h]; rfl) hcomment
  · rfl

/-- The two brackets of a header, at the ends of its content. -/
theorem bracketed_iff {content : List Char} :
    content.head? = some '[' ∧ content.getLast? = some ']' ↔
      ∃ inner, content = '[' :: (inner ++ [']']) := by
  constructor
  · rintro ⟨hhead, hlast⟩
    obtain ⟨rest, rfl⟩ := List.head?_eq_some_iff.mp hhead
    rcases List.eq_nil_or_concat rest with rfl | ⟨inner, last, rfl⟩
    · simp at hlast
    · rw [List.concat_eq_append, ← List.cons_append, List.getLast?_concat,
        Option.some.injEq] at hlast
      exact ⟨inner, by rw [hlast, List.concat_eq_append]⟩
  · rintro ⟨inner, rfl⟩
    exact ⟨rfl, by rw [← List.cons_append, List.getLast?_concat]⟩

theorem IsHeader.ofLine_eq (h : IsHeader line heading) : ofLine line = .header heading := by
  obtain ⟨inner, hline, rfl⟩ := h
  rw [ofLine_of_content (by simp [hline]) (by simp [hline]), hline, ofContent,
    if_pos (bracketed_iff.mpr ⟨inner, rfl⟩)]
  simp

/-- An equals sign is no blank, so the content of a line is cut at it where the line is. -/
theorem ofContent_equals {before after : List Char} (hb : '=' ∉ before)
    (hheader : ¬∃ inner, Text.trim (before ++ '=' :: after) = '[' :: (inner ++ [']'])) :
    ofContent (Text.trim (before ++ '=' :: after)) =
      .assignment (String.ofList (Text.trim before)) (String.ofList (Statement.value after)) := by
  have hstart : '=' ∉ Text.trimStart before := fun hm => hb (Text.mem_of_mem_trimStart hm)
  have hvalue : Statement.value (Text.trimEnd after) = Statement.value after := by
    rw [Statement.value, Text.trim_trimEnd, Statement.value]
  rw [ofContent, if_neg (fun h => hheader (bracketed_iff.mp h)),
    Text.trim_append_cons (by decide), Text.takeWhile_bne_append hstart,
    Text.dropWhile_bne_append hstart, List.tail_cons, Text.trim_trimStart, hvalue]
  simp

/-- A line with an equals sign that does not begin with a bracket is an assignment or a comment. -/
theorem ofLine_equals {before after : List Char} (hb : '=' ∉ before)
    (hbracket : (Text.trim before).head? ≠ some '[') :
    ofLine (before ++ '=' :: after) =
      if (Text.trim before).head? = some '#' then .nothing
      else
        .assignment (String.ofList (Text.trim before)) (String.ofList (Statement.value after)) := by
  have hcontent : Text.trim (before ++ '=' :: after) =
      Text.trimStart before ++ '=' :: Text.trimEnd after := Text.trim_append_cons (by decide) _ _
  have hhead : (Text.trim (before ++ '=' :: after)).head? =
      (Text.trim before).head?.or (some '=') := by
    rw [hcontent, List.head?_append, Text.head?_trim]
    rfl
  split
  · next hcomment =>
    obtain ⟨rest, hrest⟩ := List.head?_eq_some_iff.mp (by rw [hhead, hcomment]; rfl)
    simp only [ofLine, hrest]
  · next hcomment =>
    have hother : ∀ c, c ≠ '=' → (Text.trim before).head? ≠ some c →
        (Text.trim (before ++ '=' :: after)).head? ≠ some c := by
      intro c hc hne
      rw [hhead]
      cases h : (Text.trim before).head? with
      | none => simpa using hc.symm
      | some d => rwa [h] at hne
    rw [ofLine_of_content (by simp [hcontent]) (hother '#' (by decide) hcomment),
      ofContent_equals hb]
    rintro ⟨inner, hinner⟩
    exact hother '[' (by decide) hbracket (by rw [hinner]; rfl)

theorem IsAssignment.ofLine_eq (h : IsAssignment line key value) :
    ofLine line = .assignment key value := by
  obtain ⟨hcomment, hheader, before, after, rfl, hb, rfl, written, hvalue, rfl⟩ := h
  have hempty : Text.trim (before ++ '=' :: after) ≠ [] := by
    rw [Text.trim_append_cons (by decide)]
    simp
  rw [ofLine_of_content hempty hcomment, ofContent_equals hb, hvalue.value_eq]
  rintro ⟨inner, hinner⟩
  exact hheader _ ⟨inner, hinner, rfl⟩

/-- A line is a header or an assignment, or says nothing. -/
theorem header_or_assignment_or_nothing (line : List Char) :
    (∃ heading, IsHeader line heading) ∨ (∃ key value, IsAssignment line key value) ∨
      ofLine line = .nothing := by
  by_cases hheader : ∃ heading, IsHeader line heading
  · exact .inl hheader
  by_cases hcomment : (Text.trim line).head? = some '#'
  · obtain ⟨rest, hrest⟩ := List.head?_eq_some_iff.mp hcomment
    exact .inr (.inr (by simp only [ofLine, hrest]))
  by_cases hequals : '=' ∈ line
  · obtain ⟨before, after, hline, hb⟩ := List.eq_append_cons_of_mem hequals
    obtain ⟨written, hw⟩ := exists_isValue after
    exact .inr (.inl ⟨_, _, hcomment, fun heading h => hheader ⟨heading, h⟩, before, after, hline,
      hb, rfl, written, hw, rfl⟩)
  · refine .inr (.inr ?_)
    by_cases hempty : Text.trim line = []
    · rw [ofLine, hempty]
    · have hnone : '=' ∉ Text.trim line := fun hm => hequals (Text.mem_of_mem_trim hm)
      rw [ofLine_of_content hempty hcomment, ofContent, if_neg, if_neg (by simpa using hnone)]
      rw [bracketed_iff]
      rintro ⟨inner, hinner⟩
      exact hheader ⟨_, inner, hinner, rfl⟩

theorem ofLine_eq_header_iff : ofLine line = .header heading ↔ IsHeader line heading := by
  refine ⟨fun h => ?_, IsHeader.ofLine_eq⟩
  rcases header_or_assignment_or_nothing line with ⟨other, ho⟩ | ⟨key, value, ha⟩ | hn
  · rw [ho.ofLine_eq, Statement.header.injEq] at h
    exact h ▸ ho
  · simp [ha.ofLine_eq] at h
  · simp [hn] at h

theorem ofLine_eq_assignment_iff :
    ofLine line = .assignment key value ↔ IsAssignment line key value := by
  refine ⟨fun h => ?_, IsAssignment.ofLine_eq⟩
  rcases header_or_assignment_or_nothing line with ⟨other, ho⟩ | ⟨otherKey, otherValue, ha⟩ | hn
  · simp [ho.ofLine_eq] at h
  · rw [ha.ofLine_eq, Statement.assignment.injEq] at h
    obtain ⟨rfl, rfl⟩ := h
    exact ha
  · simp [hn] at h

end Statement

end Settings

end ScrewLang
