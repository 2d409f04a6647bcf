import ScrewLang.Proofs.Settings.Lookup
import ScrewLang.Proofs.Text.Lines

/-!
# Comments at the end of a line

A comment can be added behind a blank line, a comment, and an assignment whose value is not a quote
that is still open: what the line says stays the same, and so do the settings. Behind a header it
cannot. A header ends with its bracket, so with a comment behind it the line is no header any more,
and what follows stays in the section before.
-/

namespace ScrewLang

namespace Settings

open Statement (IsHeader IsAssignment IsValue)

namespace Statement

variable {line text comment : List Char} {heading : String}

/-! ### One line -/

/-- A quote that opens the value to the right of an equals sign is closed again. -/
def Finished (text : List Char) : Prop :=
  ∀ inner, Text.trim text = '"' :: inner → '"' ∈ inner

/-- A line behind which a comment may stand. -/
inductive Commentable (line : List Char) : Prop
  | blank (blanks : Text.Blanks line)
  | comment (mark : (Text.trim line).head? = some '#')
  | assignment {before after : List Char} (shape : line = before ++ '=' :: after)
      (first : '=' ∉ before) (key : (Text.trim before).head? ≠ some '[') (value : Finished after)

/-- The line with a comment behind it. -/
def withComment (line comment : List Char) : List Char :=
  line ++ ' ' :: '#' :: comment

theorem trim_withComment_of_blanks (h : Text.Blanks line) :
    Text.trim (withComment line comment) = '#' :: Text.trimEnd comment := by
  have hspace : Text.Blanks (line ++ [' ']) := by
    intro c hc
    rcases List.mem_append.mp hc with hc | hc
    · exact h c hc
    · rw [List.mem_singleton.mp hc]
      rfl
  have hsplit : withComment line comment = (line ++ [' ']) ++ '#' :: comment := by
    simp [withComment]
  rw [hsplit, Text.trim_append_cons (by decide), Text.trimStart_of_blanks hspace, List.nil_append]

/-- A comment behind a closed quote does not belong to the value. -/
theorem IsValue.withComment_of_closed {inner : List Char} (h : Text.trim text = '"' :: inner)
    (hclosed : '"' ∈ inner) :
    ∃ written, IsValue text written ∧ IsValue (withComment text comment) written := by
  obtain ⟨written, rest, rfl, hw⟩ := List.eq_append_cons_of_mem hclosed
  obtain ⟨blanks, hcontent⟩ := Text.exists_trim_append h
  have hlonger : Text.trim (withComment text comment) =
      '"' :: (written ++ '"' :: Text.trimEnd (rest ++ blanks ++ ' ' :: '#' :: comment)) := by
    rw [withComment, hcontent, ← Text.trimEnd_append_cons (by decide)]
    simp
  exact ⟨written, .closed h hw, .closed hlonger hw⟩

/-- A comment behind a value without quotes does not belong to it. -/
theorem IsValue.withComment_of_bare (h : (Text.trim text).head? ≠ some '"') :
    ∃ written, IsValue text written ∧ IsValue (withComment text comment) written := by
  have hhead : (Text.trim (withComment text comment)).head? ≠ some '"' := by
    cases htrim : Text.trim text with
    | nil =>
      rw [trim_withComment_of_blanks (Text.blanks_of_trim_eq_nil htrim)]
      simp
    | cons c content =>
      obtain ⟨blanks, hcontent⟩ := Text.exists_trim_append htrim
      rw [htrim] at h
      rw [withComment, hcontent]
      exact h
  by_cases hmark : '#' ∈ text
  · obtain ⟨front, rest, hsplit, hf⟩ := List.eq_append_cons_of_mem hmark
    have hlonger : withComment text comment = front ++ '#' :: (rest ++ ' ' :: '#' :: comment) := by
      simp [withComment, hsplit]
    exact ⟨_, .commented h hsplit hf, .commented hhead hlonger hf⟩
  · have hspace : Text.trim (text ++ [' ']) = Text.trim text :=
      Text.trim_append_right (List.forall_mem_singleton.mpr rfl) text
    have hlonger : withComment text comment = (text ++ [' ']) ++ '#' :: comment := by
      simp [withComment]
    refine ⟨_, .uncommented h hmark, ?_⟩
    rw [← hspace]
    exact .commented hhead hlonger (by simpa using hmark)

theorem value_withComment (h : Finished text) :
    Statement.value (withComment text comment) = Statement.value text := by
  obtain ⟨written, hvalue, hlonger⟩ :
      ∃ written, IsValue text written ∧ IsValue (withComment text comment) written := by
    by_cases hq : (Text.trim text).head? = some '"'
    · obtain ⟨inner, hinner⟩ := List.head?_eq_some_iff.mp hq
      exact IsValue.withComment_of_closed hinner (h inner hinner)
    · exact IsValue.withComment_of_bare hq
  rw [hvalue.value_eq, hlonger.value_eq]

/-- A comment behind a line that may have one does not change what the line says. -/
theorem Commentable.ofLine_withComment (h : Commentable line) :
    ofLine (withComment line comment) = ofLine line := by
  cases h with
  | blank blanks =>
    simp only [ofLine, trim_withComment_of_blanks blanks, Text.trim_of_blanks blanks]
  | comment mark =>
    obtain ⟨content, htrim⟩ := List.head?_eq_some_iff.mp mark
    obtain ⟨blanks, hcontent⟩ := Text.exists_trim_append htrim
    simp only [ofLine, withComment, hcontent, htrim]
  | @assignment before after shape first key value =>
    have hsplit : withComment line comment = before ++ '=' :: withComment after comment := by
      simp [withComment, shape]
    rw [hsplit, shape, ofLine_equals first key, ofLine_equals first key, value_withComment value]

/-! ### Headers -/

/-- The content of a header with a comment behind it. -/
theorem IsHeader.exists_trim_withComment (h : IsHeader line heading) (comment : List Char) :
    ∃ inner blanks, heading = String.ofList (Text.trim inner) ∧
      Text.trim (withComment line comment) =
        '[' :: (inner ++ ']' :: (blanks ++ ' ' :: '#' :: Text.trimEnd comment)) := by
  obtain ⟨inner, hline, rfl⟩ := h
  obtain ⟨blanks, hcontent⟩ := Text.exists_trim_append hline
  have hmark : inner ++ [']'] ++ blanks ++ ' ' :: '#' :: comment =
      (inner ++ ']' :: (blanks ++ [' '])) ++ '#' :: comment := by simp
  refine ⟨inner, blanks, rfl, ?_⟩
  rw [withComment, hcontent, hmark, Text.trimEnd_append_cons (by decide)]
  simp

/-- With a comment behind it, a header does not open its section. -/
theorem IsHeader.not_isHeader_withComment (h : IsHeader line heading) (comment : List Char) :
    ¬IsHeader (withComment line comment) heading := by
  obtain ⟨inner, blanks, rfl, hcontent⟩ := h.exists_trim_withComment comment
  rintro ⟨longer, hlonger, hsame⟩
  rw [hcontent, List.cons.injEq] at hlonger
  -- the name in the brackets now goes on behind the bracket that closed it
  obtain ⟨rest, rfl⟩ : ∃ rest, longer = inner ++ ']' :: rest := by
    have hne : blanks ++ ' ' :: '#' :: Text.trimEnd comment ≠ [] := by simp
    refine ⟨(blanks ++ ' ' :: '#' :: Text.trimEnd comment).dropLast, ?_⟩
    have hlast := congrArg List.dropLast hlonger.2
    rw [List.dropLast_concat] at hlast
    rw [← hlast, List.dropLast_append_of_ne_nil (by simp), List.dropLast_cons_of_ne_nil hne]
  have hlength : (Text.trim inner).length = (Text.trim (inner ++ ']' :: rest)).length := by
    rw [String.ofList_injective hsame]
  have hle : (Text.trim inner).length ≤ (Text.trimStart inner).length :=
    (List.rdropWhile_prefix Text.isBlank (Text.trimStart inner)).length_le
  rw [Text.trim_append_cons (by decide), List.length_append, List.length_cons] at hlength
  omega

/-- With a comment behind it that does not end with a bracket, a header is no header at all. -/
theorem IsHeader.not_isHeader_of_getLast? (h : IsHeader line heading)
    (hlast : (Text.trimEnd comment).getLast? ≠ some ']') (other : String) :
    ¬IsHeader (withComment line comment) other := by
  obtain ⟨inner, blanks, -, hcontent⟩ := h.exists_trim_withComment comment
  rintro ⟨longer, hlonger, -⟩
  have hends : ('#' :: Text.trimEnd comment).getLast? = some ']' := by
    have hlasts := (bracketed_iff.mpr ⟨longer, hcontent.symm.trans hlonger⟩).2
    have hmark : '[' :: (inner ++ ']' :: (blanks ++ ' ' :: '#' :: Text.trimEnd comment)) =
        ('[' :: (inner ++ ']' :: (blanks ++ [' ']))) ++ '#' :: Text.trimEnd comment := by simp
    rwa [hmark, List.getLast?_append_of_ne_nil _ (by simp)] at hlasts
  rw [List.getLast?_cons] at hends
  cases hcut : (Text.trimEnd comment).getLast? with
  | none => simp [hcut] at hends
  | some c => exact hlast (by simpa [hcut] using hends)

/-- If a header with a comment behind it assigns anything, it is to no key that counts. -/
theorem IsHeader.key_withComment (h : IsHeader line heading) {key value : String}
    (ha : IsAssignment (withComment line comment) key value) (counting : Key) :
    key ≠ counting.name := by
  obtain ⟨inner, blanks, -, hcontent⟩ := h.exists_trim_withComment comment
  obtain ⟨before, after, hsplit, -, rfl, -⟩ := ha.sides
  have hbracket : (Text.trim before).head? = some '[' := by
    rw [hsplit, Text.trim_append_cons (by decide)] at hcontent
    have hhead := congrArg List.head? hcontent
    rw [Text.head?_trim]
    cases hstart : Text.trimStart before with
    | nil => simp [hstart] at hhead
    | cons c rest => simpa [hstart] using hhead
  intro hname
  have hletters : Text.trim before = counting.name.toList := by
    rw [← hname, String.toList_ofList]
  rw [hletters] at hbracket
  cases counting <;> simp [Key.name] at hbracket

end Statement

/-! ### One line of a file -/

namespace Entries

/-- Reading a file up to a line, then the line, and then the lines behind it. -/
theorem behind_line {before line after : List Char} (h : Text.IsLine before line after) :
    behind (Text.lines (before ++ line ++ after)) =
      ((Text.lines (after.drop 1)).map Statement.ofLine).foldl obey
        (obey (behind (Text.lines before)) (Statement.ofLine line)) := by
  rw [List.append_assoc, Text.lines_append h.begins, behind_append]
  cases after with
  | nil =>
    rw [List.append_nil]
    by_cases hempty : line = []
    · -- there is no last line, and an empty one would say nothing
      subst hempty
      rfl
    · rw [Text.lines_of_not_mem h.single hempty]
      rfl
  | cons c rest =>
    obtain rfl : c = '\n' := h.ends c rfl
    rw [Text.lines_append_newline h.single, List.map_cons, List.foldl_cons,
      Statement.ofLine_chomp]
    rfl

end Entries

/-- Two files that differ in one line decide the same settings if the lines have the same effect. -/
theorem parse_line_congr {before line other after : List Char} (h : Text.IsLine before line after)
    (ho : Text.IsLine before other after)
    (halike : Alike (Entries.obey (Entries.behind (Text.lines before)) (Statement.ofLine line))
      (Entries.obey (Entries.behind (Text.lines before)) (Statement.ofLine other))) :
    parse (String.ofList (before ++ line ++ after)) =
      parse (String.ofList (before ++ other ++ after)) := by
  have hend := halike.foldl ((Text.lines (after.drop 1)).map Statement.ofLine)
  rw [← Entries.behind_line h, ← Entries.behind_line ho] at hend
  rw [parse, parse, Entries.parse_eq_behind, Entries.parse_eq_behind, String.toList_ofList,
    String.toList_ofList]
  exact ofEntries_congr hend.entries

open Statement (Commentable withComment)

/-- Trailing comments are inert behind everything but headers. Added behind a blank line, a comment
or an assignment whose key does not begin with a bracket and whose value is not a quote still open,
with whatever carriage returns end the line, a comment does not change the settings. A header does
not open its section with a comment behind it, and unless the comment ends with a bracket the
settings are those of the file without the header. -/
theorem trailing_comments_are_inert {before line cut after comment : List Char}
    (hline : Text.IsLine before (line ++ cut) after) (hcut : ∀ c ∈ cut, c = '\r')
    (hcomment : '\n' ∉ comment) :
    let text := String.ofList (before ++ (line ++ cut) ++ after)
    let commented := String.ofList (before ++ (withComment line comment ++ cut) ++ after)
    (Commentable line → parse commented = parse text) ∧
      ∀ heading, IsHeader line heading → ¬IsHeader (withComment line comment) heading ∧
        ((Text.trimEnd comment).getLast? ≠ some ']' →
          parse commented = parse (String.ofList (before ++ [] ++ after))) := by
  intro text commented
  have hblank : Text.Blanks cut := by
    intro c hc
    rw [hcut c hc]
    rfl
  have hlonger : Text.IsLine before (withComment line comment ++ cut) after := by
    refine ⟨?_, hline.begins, hline.ends⟩
    have hsingle := hline.single
    simp only [List.mem_append, not_or] at hsingle
    simp [withComment, hsingle, hcomment]
  constructor
  · intro h
    apply parse_line_congr hlonger hline
    rw [Statement.ofLine_append_blanks hblank, Statement.ofLine_append_blanks hblank,
      h.ofLine_withComment]
    exact ⟨rfl, fun _ => rfl⟩
  · intro heading h
    refine ⟨h.not_isHeader_withComment comment, fun hlast => ?_⟩
    have hempty : Text.IsLine before [] after := ⟨by simp, hline.begins, hline.ends⟩
    apply parse_line_congr hlonger hempty
    have halike := alike_concat (Text.lines before) (h.not_isHeader_of_getLast? hlast)
      fun key value ha => h.key_withComment ha
    rwa [Entries.behind_concat, ← Statement.ofLine_append_blanks hblank] at halike

/-- A quoted colour before a carriage return, with a comment that holds a quote, and a header with a
comment behind it. -/
theorem trailing_comments_are_inert_quoted_color :
    let before := "[colors]\n".toList
    let line := "hint = \"blue\"".toList
    let after := "\ncaret=red".toList
    Text.IsLine before (line ++ ['\r']) after ∧ Commentable line ∧
      parse (String.ofList (before ++ (withComment line "\" ]".toList ++ ['\r']) ++ after)) =
        parse (String.ofList (before ++ (line ++ ['\r']) ++ after)) ∧
      IsHeader "[colors]".toList "colors" ∧
      parse (String.ofList ([] ++ (withComment "[colors]".toList " hues".toList ++ []) ++ after)) =
        parse (String.ofList ([] ++ [] ++ after)) := by
  intro before line after
  have hline : Text.IsLine before (line ++ ['\r']) after :=
    ⟨by decide, by simp [before], by simp [after]⟩
  have hkey : Commentable line := by
    refine @Commentable.assignment line "hint ".toList " \"blue\"".toList rfl (by decide)
      (by decide) ?_
    have hvalue : Text.trim " \"blue\"".toList = '"' :: "blue\"".toList := by decide
    intro inner hinner
    obtain rfl := (List.cons.inj (hvalue.symm.trans hinner)).2
    decide
  have hheader : IsHeader "[colors]".toList "colors" :=
    Statement.ofLine_eq_header_iff.mp (by decide +kernel)
  have hfirst : Text.IsLine [] ("[colors]".toList ++ []) after :=
    ⟨by decide, by simp, by simp [after]⟩
  refine ⟨hline, hkey, (trailing_comments_are_inert hline (by simp) (by decide)).1 hkey,
    hheader, ?_⟩
  exact ((trailing_comments_are_inert hfirst (by simp) (by decide)).2 "colors" hheader).2
    (by decide)

/-- The same file with and without a comment behind its header. -/
theorem commented_header_is_lost :
    IsHeader "[interpreter]".toList "interpreter" ∧
      withComment "[interpreter]".toList " c".toList = "[interpreter] # c".toList ∧
      parse "[interpreter] # c\ncells=5" ≠ parse "[interpreter]\ncells=5" :=
  ⟨Statement.ofLine_eq_header_iff.mp (by decide +kernel), by decide +kernel, by decide +kernel⟩

end Settings

end ScrewLang
