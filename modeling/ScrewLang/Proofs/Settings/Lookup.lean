import Mathlib.Data.List.Induction
import ScrewLang.Proofs.Settings.Statements
import ScrewLang.Settings.Basic

/-!
# The entries in force

A settings file is read line by line, with the current section and the entries so far at hand. What
comes out can be said without that state: the value in force for a key of a section is that of the
last line that assigns to the key and stands in the section, and a line stands in the section of the
nearest header above it. Settings look at seven entries only, so nothing else in the file matters.
-/

namespace ScrewLang

namespace Settings

open Statement (IsHeader IsAssignment)

/-! ### Lines and their sections -/

/-- The section in which the line behind some lines stands: the one that the last header opens, or
before any header the section without a name. -/
def Governs (lines : List (List Char)) (heading : String) : Prop :=
  (∃ before line rest, lines = before ++ line :: rest ∧ IsHeader line heading ∧
      ∀ later ∈ rest, ∀ other, ¬IsHeader later other) ∨
    heading = "" ∧ ∀ line ∈ lines, ∀ other, ¬IsHeader line other

/-- At some place among the lines of a file, a value is given to a key of a section. -/
structure AssignedAt (lines : List (List Char)) (place : Nat) (heading key value : String) :
    Prop where
  assigns : ∃ line, lines[place]? = some line ∧ IsAssignment line key value
  governs : Governs (lines.take place) heading

/-- What is in force for a key of a section: the value of the last line that gives it one, and
nothing if no line does. -/
def InForce (lines : List (List Char)) (heading key : String) : Option String → Prop
  | some value => ∃ place, AssignedAt lines place heading key value ∧
      ∀ other later, AssignedAt lines other heading key later → other ≤ place
  | none => ∀ place value, ¬AssignedAt lines place heading key value

section Lines

variable {lines : List (List Char)} {line : List Char} {heading key value : String} {place : Nat}

theorem governs_nil_iff : Governs [] heading ↔ heading = "" := by
  simp [Governs]

/-- One more line changes the section if it is a header. -/
theorem governs_concat_iff :
    Governs (lines ++ [line]) heading ↔
      IsHeader line heading ∨ (∀ other, ¬IsHeader line other) ∧ Governs lines heading := by
  constructor
  · rintro (⟨before, last, rest, hsplit, hlast, hrest⟩ | ⟨rfl, hnone⟩)
    · rcases List.eq_nil_or_concat rest with rfl | ⟨front, final, rfl⟩
      · obtain ⟨-, hline⟩ := List.append_inj' hsplit rfl
        rw [List.cons.injEq] at hline
        exact .inl (hline.1 ▸ hlast)
      · rw [List.concat_eq_append, ← List.cons_append, ← List.append_assoc] at hsplit
        obtain ⟨hlines, hline⟩ := List.append_inj' hsplit rfl
        rw [List.cons.injEq] at hline
        obtain ⟨rfl, -⟩ := hline
        simp only [List.concat_eq_append, List.forall_mem_append, List.forall_mem_singleton]
          at hrest
        exact .inr ⟨hrest.2, .inl ⟨before, last, front, hlines, hlast, hrest.1⟩⟩
    · rw [List.forall_mem_append, List.forall_mem_singleton] at hnone
      exact .inr ⟨hnone.2, .inr ⟨rfl, hnone.1⟩⟩
  · rintro (h | ⟨hline, ⟨before, last, rest, rfl, hlast, hrest⟩ | ⟨rfl, hnone⟩⟩)
    · exact .inl ⟨lines, line, [], rfl, h, by simp⟩
    · refine .inl ⟨before, last, rest ++ [line], by simp, hlast, ?_⟩
      rw [List.forall_mem_append, List.forall_mem_singleton]
      exact ⟨hrest, hline⟩
    · refine .inr ⟨rfl, ?_⟩
      rw [List.forall_mem_append, List.forall_mem_singleton]
      exact ⟨hnone, hline⟩

theorem AssignedAt.lt (h : AssignedAt lines place heading key value) : place < lines.length := by
  obtain ⟨⟨line, hline, -⟩, -⟩ := h
  exact (List.getElem?_eq_some_iff.mp hline).1

theorem AssignedAt.unique {other : String} (h : AssignedAt lines place heading key value)
    (ho : AssignedAt lines place heading key other) : value = other := by
  obtain ⟨⟨line, hline, ha⟩, -⟩ := h
  obtain ⟨⟨same, hsame, hb⟩, -⟩ := ho
  obtain rfl : line = same := Option.some.inj (hline.symm.trans hsame)
  have heq := ha.ofLine_eq.symm.trans hb.ofLine_eq
  exact (Statement.assignment.inj heq).2

/-- One more line gives no other value than its own, and that to its own section. -/
theorem assignedAt_concat_iff :
    AssignedAt (lines ++ [line]) place heading key value ↔
      AssignedAt lines place heading key value ∨
        place = lines.length ∧ IsAssignment line key value ∧ Governs lines heading := by
  constructor
  · intro h
    have hlt := h.lt
    obtain ⟨⟨found, hfound, ha⟩, hg⟩ := h
    rw [List.length_append, List.length_singleton] at hlt
    by_cases hplace : place < lines.length
    · rw [List.getElem?_append_left hplace] at hfound
      rw [List.take_append_of_le_length (by omega)] at hg
      exact .inl ⟨⟨found, hfound, ha⟩, hg⟩
    · obtain rfl : place = lines.length := by omega
      rw [List.getElem?_concat_length, Option.some.injEq] at hfound
      rw [List.take_left] at hg
      exact .inr ⟨rfl, hfound ▸ ha, hg⟩
  · rintro (h | ⟨rfl, ha, hg⟩)
    · have hlt := h.lt
      refine ⟨?_, ?_⟩
      · rw [List.getElem?_append_left hlt]
        exact h.assigns
      · rw [List.take_append_of_le_length (by omega)]
        exact h.governs
    · exact ⟨⟨line, by simp, ha⟩, by rwa [List.take_left]⟩

/-- A line that gives a value to the key puts it in force. -/
theorem inForce_concat_of_assignment (ha : IsAssignment line key value)
    (hg : Governs lines heading) : InForce (lines ++ [line]) heading key (some value) := by
  refine ⟨lines.length, assignedAt_concat_iff.mpr (.inr ⟨rfl, ha, hg⟩), ?_⟩
  intro other later hlater
  have hlt := hlater.lt
  rw [List.length_append, List.length_singleton] at hlt
  omega

/-- Any other line leaves in force what is. -/
theorem InForce.concat {found : Option String} (h : InForce lines heading key found)
    (hline : ∀ value, IsAssignment line key value → ¬Governs lines heading) :
    InForce (lines ++ [line]) heading key found := by
  have hsame : ∀ place value, AssignedAt (lines ++ [line]) place heading key value →
      AssignedAt lines place heading key value := by
    intro place value ha
    rcases assignedAt_concat_iff.mp ha with ha | ⟨-, ha, hg⟩
    · exact ha
    · exact absurd hg (hline value ha)
  cases found with
  | none => exact fun place value ha => h place value (hsame place value ha)
  | some value =>
    obtain ⟨place, ha, hlast⟩ := h
    exact ⟨place, assignedAt_concat_iff.mpr (.inl ha),
      fun other later hl => hlast other later (hsame other later hl)⟩

/-- At most one value is in force. -/
theorem InForce.unique {found other : Option String} (h : InForce lines heading key found)
    (ho : InForce lines heading key other) : found = other := by
  cases found with
  | none =>
    cases other with
    | none => rfl
    | some value =>
      obtain ⟨place, ha, -⟩ := ho
      exact absurd ha (h place value)
  | some value =>
    obtain ⟨place, ha, hlast⟩ := h
    cases other with
    | none => exact absurd ha (ho place value)
    | some later =>
      obtain ⟨last, hb, hmax⟩ := ho
      obtain rfl : place = last := Nat.le_antisymm (hmax place value ha) (hlast last later hb)
      rw [ha.unique hb]

end Lines

/-! ### Reading line by line -/

namespace Entries

/-- An entry put in force changes what is in force for its own key only. -/
theorem get?_insert (entries : Entries) (entry : Entry) (heading key : String) :
    (entries.insert entry).get? heading key =
      if entry.heading = heading ∧ entry.key = key then some entry.value
      else entries.get? heading key := by
  rw [insert, get?, get?]
  by_cases h : entry.heading = heading ∧ entry.key = key
  · simp [h]
  · have hfilter : (entries.filter fun old =>
          !(old.heading == entry.heading && old.key == entry.key)).find?
            (fun old => old.heading == heading && old.key == key) =
        entries.find? fun old => old.heading == heading && old.key == key := by
      rw [List.find?_filter]
      congr 1
      funext old
      by_cases ho : old.heading = heading ∧ old.key = key
      · -- an old entry for the key looked up is not among those replaced
        have hkept : ¬(old.heading = entry.heading ∧ old.key = entry.key) :=
          fun hold => h ⟨hold.1.symm.trans ho.1, hold.2.symm.trans ho.2⟩
        simpa [ho, imp_iff_not_or] using hkept
      · have hold : (old.heading == heading && old.key == key) = false := by simpa using ho
        simp only [hold, Bool.false_eq_true, and_false, decide_false]
    rw [List.find?_cons_of_neg (by simpa using h), hfilter, if_neg h]

/-- The section and the entries in force behind some lines. -/
def behind (lines : List (List Char)) : String × Entries :=
  (lines.map Statement.ofLine).foldl obey ("", [])

theorem behind_append (lines more : List (List Char)) :
    behind (lines ++ more) = (more.map Statement.ofLine).foldl obey (behind lines) := by
  rw [behind, List.map_append, List.foldl_append, behind]

theorem behind_concat (lines : List (List Char)) (line : List Char) :
    behind (lines ++ [line]) = obey (behind lines) (Statement.ofLine line) :=
  behind_append lines [line]

theorem parse_eq_behind (text : String) : parse text = (behind (Text.lines text.toList)).2 :=
  rfl

/-- The section kept while reading is that of the nearest header. -/
theorem governs_iff {lines : List (List Char)} {heading : String} :
    Governs lines heading ↔ (behind lines).1 = heading := by
  induction lines using List.reverseRecOn generalizing heading with
  | nil =>
    rw [governs_nil_iff, eq_comm]
    rfl
  | append_singleton lines line ih =>
    rw [behind_concat, governs_concat_iff, ih]
    rcases Statement.header_or_assignment_or_nothing line with
      ⟨opened, hh⟩ | ⟨key, value, ha⟩ | hn
    · have hnamed : IsHeader line heading ↔ opened = heading := by
        rw [← Statement.ofLine_eq_header_iff, hh.ofLine_eq, Statement.header.injEq]
      have hsome : ¬∀ other, ¬IsHeader line other := fun hnone => hnone opened hh
      simp only [hh.ofLine_eq, obey, hnamed, hsome, false_and, or_false]
    · simp only [ha.ofLine_eq, obey, ha.notHeader, not_false_eq_true, implies_true, true_and,
        false_or]
    · have hnone : ∀ other, ¬IsHeader line other := by
        intro other hh
        simp [hh.ofLine_eq] at hn
      simp only [hn, obey, hnone, not_false_eq_true, implies_true, true_and, false_or]

/-- The entries kept while reading are the values in force. -/
theorem inForce_behind (lines : List (List Char)) (heading key : String) :
    InForce lines heading key ((behind lines).2.get? heading key) := by
  induction lines using List.reverseRecOn with
  | nil =>
    intro place value ha
    simpa using ha.lt
  | append_singleton lines line ih =>
    rw [behind_concat]
    rcases Statement.header_or_assignment_or_nothing line with
      ⟨other, hh⟩ | ⟨otherKey, value, ha⟩ | hn
    · rw [hh.ofLine_eq]
      exact ih.concat fun value ha => absurd hh (ha.notHeader other)
    · rw [ha.ofLine_eq]
      simp only [obey, get?_insert]
      split
      · next hsame =>
        obtain ⟨hheading, rfl⟩ := hsame
        exact inForce_concat_of_assignment ha (governs_iff.mpr hheading)
      · next hother =>
        refine ih.concat fun later hl hg => hother ⟨governs_iff.mp hg, ?_⟩
        exact (Statement.assignment.inj (ha.ofLine_eq.symm.trans hl.ofLine_eq)).1
    · rw [hn]
      refine ih.concat fun value ha => ?_
      simp [ha.ofLine_eq] at hn

/-- Looking up an entry of a file finds what is in force among its lines. -/
theorem get?_parse_eq_iff {text heading key : String} {found : Option String} :
    (parse text).get? heading key = found ↔
      InForce (Text.lines text.toList) heading key found := by
  have hforce := inForce_behind (Text.lines text.toList) heading key
  rw [← parse_eq_behind] at hforce
  constructor
  · rintro rfl
    exact hforce
  · exact hforce.unique

end Entries

/-! ### The seven entries that count -/

/-- The keys that decide settings. -/
inductive Key where
  | cells
  | eof
  | maxSteps
  | timeout
  | error
  | hint
  | caret
deriving DecidableEq, Repr

/-- The section to which a key belongs. -/
def Key.heading : Key → String
  | .cells | .eof | .maxSteps | .timeout => "interpreter"
  | .error | .hint | .caret => "colors"

/-- The spelling of a key. -/
def Key.name : Key → String
  | .cells => "cells"
  | .eof => "eof"
  | .maxSteps => "max_steps"
  | .timeout => "timeout_ms"
  | .error => "error"
  | .hint => "hint"
  | .caret => "caret"

/-- Entries with the same values for the seven keys decide the same settings. -/
theorem ofEntries_congr {entries others : Entries}
    (h : ∀ key : Key, entries.get? key.heading key.name = others.get? key.heading key.name) :
    ofEntries entries = ofEntries others := by
  have hlookup : ∀ (key : Key) {α : Type} (parse? : String → Option α) (otherwise : α),
      lookup entries key.heading key.name parse? otherwise =
        lookup others key.heading key.name parse? otherwise := by
    intro key α parse? otherwise
    rw [lookup, h key, lookup]
  have hcells := hlookup .cells cells? default.cells
  have heof := hlookup .eof EofPolicy.ofName? default.eof
  have hsteps := hlookup .maxSteps Limit.parse? default.maxSteps
  have htimeout := hlookup .timeout Limit.parse? default.timeout
  have herror := hlookup .error Color.parse? default.palette.error
  have hhint := hlookup .hint Color.parse? default.palette.hint
  have hcaret := hlookup .caret Color.parse? default.palette.caret
  simp only [Key.heading, Key.name] at hcells heof hsteps htimeout herror hhint hcaret
  simp only [ofEntries, hcells, heof, hsteps, htimeout, herror, hhint, hcaret]

/-- States of reading in the same section that agree on the seven keys. -/
structure Alike (current other : String × Entries) : Prop where
  heading : current.1 = other.1
  entries : ∀ key : Key,
    current.2.get? key.heading key.name = other.2.get? key.heading key.name

section Alike

variable {current other : String × Entries}

/-- Obeying the same statement keeps states alike. -/
theorem Alike.obey (h : Alike current other) (statement : Statement) :
    Alike (Entries.obey current statement) (Entries.obey other statement) := by
  cases statement with
  | header heading => exact ⟨rfl, h.entries⟩
  | nothing => exact h
  | assignment key value =>
    refine ⟨h.heading, fun k => ?_⟩
    simp only [Entries.obey, Entries.get?_insert, h.heading, h.entries k]

/-- Obeying the same statements, one after the other, keeps states alike. -/
theorem Alike.foldl (h : Alike current other) (statements : List Statement) :
    Alike (statements.foldl Entries.obey current) (statements.foldl Entries.obey other) := by
  induction statements generalizing current other with
  | nil => exact h
  | cons statement statements ih => exact ih (h.obey statement)

end Alike

/-- Files that end alike decide the same settings if they are alike up to there. -/
theorem parse_eq_of_alike {text other : String} {before behind rest : List (List Char)}
    (ht : Text.lines text.toList = before ++ rest)
    (ho : Text.lines other.toList = behind ++ rest)
    (h : Alike (Entries.behind before) (Entries.behind behind)) : parse text = parse other := by
  have hend := h.foldl (rest.map Statement.ofLine)
  rw [← Entries.behind_append, ← Entries.behind_append, ← ht, ← ho] at hend
  exact ofEntries_congr hend.entries

/-- A line that is no header and assigns to none of the seven keys does not matter. -/
theorem alike_concat {line : List Char} (lines : List (List Char))
    (hheader : ∀ heading, ¬IsHeader line heading)
    (hkey : ∀ key value, IsAssignment line key value → ∀ k : Key, key ≠ k.name) :
    Alike (Entries.behind (lines ++ [line])) (Entries.behind lines) := by
  rw [Entries.behind_concat]
  rcases Statement.header_or_assignment_or_nothing line with
    ⟨heading, hh⟩ | ⟨key, value, ha⟩ | hn
  · exact absurd hh (hheader heading)
  · rw [ha.ofLine_eq]
    refine ⟨rfl, fun k => ?_⟩
    simp only [Entries.obey, Entries.get?_insert, hkey key value ha k, and_false, if_false]
  · rw [hn]
    exact ⟨rfl, fun _ => rfl⟩

/-- Assignments to different keys can be made in either order. -/
theorem alike_swap {first second : List Char} {key value other later : String}
    (lines : List (List Char)) (hf : IsAssignment first key value)
    (hs : IsAssignment second other later) (hne : key ≠ other) :
    Alike (Entries.behind (lines ++ [first, second]))
      (Entries.behind (lines ++ [second, first])) := by
  simp only [Entries.behind_append, List.map_cons, List.map_nil, List.foldl_cons, List.foldl_nil,
    hf.ofLine_eq, hs.ofLine_eq]
  refine ⟨rfl, fun k => ?_⟩
  simp only [Entries.obey, Entries.get?_insert]
  by_cases hk : key = k.name
  · have ho : other ≠ k.name := fun ho => hne (hk.trans ho.symm)
    simp [hk, ho]
  · simp [hk]

/-- What all values that can be read and the default have in common, the value in force has. -/
theorem lookup_induction {α : Type} {motive : α → Prop} {parse? : String → Option α} {otherwise : α}
    (hd : motive otherwise) (hp : ∀ value a, parse? value = some a → motive a) (entries : Entries)
    (heading key : String) : motive (lookup entries heading key parse? otherwise) := by
  rw [lookup]
  cases hget : entries.get? heading key with
  | none => exact hd
  | some value =>
    cases hparse : parse? value with
    | none => simpa [hparse] using hd
    | some a => simpa [hparse] using hp value a hparse

theorem one_le_cells (text : String) : 1 ≤ (parse text).cells := by
  refine lookup_induction (motive := (1 ≤ ·)) (by decide) ?_ _ _ _
  intro value n hn
  exact of_decide_eq_true (Option.filter_eq_some_iff.mp hn).2

/-- The last assignment wins, in each section for itself. Looking up a key of a section finds the
value of the last line that assigns to the key under the nearest header that names the section, and
nothing if there is no such line. Settings depend on the seven entries that count: a line that is no
header and assigns to none of their keys can be inserted, and two assignments to different keys that
follow each other can change places, without an effect. A tape always has a cell. -/
theorem last_assignment_wins (text : String) :
    (∀ heading key found, (Entries.parse text).get? heading key = found ↔
        InForce (Text.lines text.toList) heading key found) ∧
      (∀ other : String,
        (∀ key : Key, (Entries.parse other).get? key.heading key.name =
          (Entries.parse text).get? key.heading key.name) → parse other = parse text) ∧
      (∀ (other : String) (before rest : List (List Char)) (line : List Char),
        Text.lines text.toList = before ++ rest → Text.lines other.toList = before ++ line :: rest →
        (∀ heading, ¬IsHeader line heading) →
        (∀ key value, IsAssignment line key value → ∀ counting : Key, key ≠ counting.name) →
        parse other = parse text) ∧
      (∀ (other : String) (before rest : List (List Char)) (first second : List Char)
          (key value nextKey nextValue : String),
        Text.lines text.toList = before ++ first :: second :: rest →
        Text.lines other.toList = before ++ second :: first :: rest →
        IsAssignment first key value → IsAssignment second nextKey nextValue → key ≠ nextKey →
        parse other = parse text) ∧
      1 ≤ (parse text).cells := by
  refine ⟨fun heading key found => Entries.get?_parse_eq_iff, fun other => ofEntries_congr, ?_, ?_,
    one_le_cells text⟩
  · intro other before rest line htext hother hheader hkey
    have hsplit : Text.lines other.toList = before ++ [line] ++ rest := by
      rw [hother, List.append_assoc, List.singleton_append]
    exact parse_eq_of_alike hsplit htext (alike_concat before hheader hkey)
  · intro other before rest first second key value nextKey nextValue htext hother hfirst hsecond hne
    have htextSplit : Text.lines text.toList = before ++ [first, second] ++ rest := by
      rw [htext, List.append_assoc]
      rfl
    have hotherSplit : Text.lines other.toList = before ++ [second, first] ++ rest := by
      rw [hother, List.append_assoc]
      rfl
    exact (parse_eq_of_alike htextSplit hotherSplit (alike_swap before hfirst hsecond hne)).symm

/-- A section opened twice, with a key given anew. A line with a key that does not count, with a
quoted mark and a comment, is inserted, and two assignments change places. -/
theorem last_assignment_wins_reopened_section :
    let text := "[colors]\nhint=red\ncaret=\"red\"#\"\n[ colors ]\r\nhint=blue"
    let longer := "[colors]\nhint=red\nsize=\"#\"#9\ncaret=\"red\"#\"\n[ colors ]\r\nhint=blue"
    let swapped := "[colors]\ncaret=\"red\"#\"\nhint=red\n[ colors ]\nhint=blue\n"
    InForce (Text.lines text.toList) "colors" "hint" (some "blue") ∧
      InForce (Text.lines text.toList) "" "hint" none ∧
      parse longer = parse text ∧ parse swapped = parse text := by
  intro text longer swapped
  obtain ⟨hlast, -, hinsert, hswap, -⟩ := last_assignment_wins text
  have hlines : Text.lines text.toList =
      ["[colors]".toList, "hint=red".toList, "caret=\"red\"#\"".toList, "[ colors ]".toList,
        "hint=blue".toList] := by
    decide +kernel
  have hsize : Statement.ofLine "size=\"#\"#9".toList = .assignment "size" "#" := by
    decide +kernel
  have hlonger : parse longer = parse text := by
    refine hinsert longer ["[colors]".toList, "hint=red".toList] _ _ hlines (by decide +kernel)
      (Statement.ofLine_eq_assignment_iff.mp hsize).notHeader ?_
    intro key value ha counting
    obtain ⟨rfl, -⟩ := Statement.assignment.inj (hsize.symm.trans ha.ofLine_eq)
    cases counting <;> decide
  have hswapped : parse swapped = parse text :=
    hswap swapped ["[colors]".toList] _ _ _ "hint" "red" "caret" "red" hlines (by decide +kernel)
      (Statement.ofLine_eq_assignment_iff.mp (by decide +kernel))
      (Statement.ofLine_eq_assignment_iff.mp (by decide +kernel)) (by decide)
  exact ⟨(hlast "colors" "hint" (some "blue")).mp (by decide +kernel),
    (hlast "" "hint" none).mp (by decide +kernel), hlonger, hswapped⟩

end Settings

end ScrewLang
