import ScrewLang.Source.Brace

/-!
# Partners of braces

A brace word is a sequence in which some places hold braces. Its jump table gives every brace the
index of its partner, and is filled in one pass with the stack of braces still open. A word whose
braces are not balanced has no table; the index of a brace without partner is reported instead.
Spec guidance: `SPEC_FULL.md` §9 and §16, component `machine`.
-/

namespace ScrewLang

namespace Jumps

/-- For every place of a brace word the index of the partner, if the place holds a brace. -/
abbrev Table := Array (Option Nat)

/-- Make two places partners of each other. -/
def link (table : Table) (first second : Nat) : Table :=
  (table.setIfInBounds first (some second)).setIfInBounds second (some first)

/-- Fill a table from the place `index` on, given the places of the braces still open, innermost
first. -/
def fill : (index : Nat) → (opened : List Nat) → Table → List (Option Brace) → Except Nat Table
  | _, [], table, [] => .ok table
  | _, place :: _, _, [] => .error place
  | index, opened, table, none :: rest => fill (index + 1) opened table rest
  | index, opened, table, some .opening :: rest => fill (index + 1) (index :: opened) table rest
  | index, [], _, some .closing :: _ => .error index
  | index, place :: outer, table, some .closing :: rest =>
    fill (index + 1) outer (link table place index) rest

/-- The jump table of a brace word. A closing brace without partner is reported where it stands;
failing that, the last opening brace without partner. Follows `build_jump_table`. -/
def table (word : List (Option Brace)) : Except Nat Table :=
  fill 0 [] (Array.replicate word.length none) word

/-- A table has one place for every place of the word. -/
theorem size_fill {index : Nat} {opened : List Nat} {start result : Table}
    {word : List (Option Brace)} (h : fill index opened start word = .ok result) :
    result.size = start.size := by
  fun_induction fill index opened start word with
  | case1 => simp_all
  | case2 => simp at h
  | case3 _ _ _ _ ih => exact ih h
  | case4 _ _ _ _ ih => exact ih h
  | case5 => simp at h
  | case6 _ _ _ _ _ ih => simpa [link] using ih h

end Jumps

end ScrewLang
