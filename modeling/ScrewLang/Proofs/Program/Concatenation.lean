import ScrewLang.Proofs.Program.Balance
import ScrewLang.Proofs.Program.Nesting
import ScrewLang.Proofs.Program.Operands

/-!
# One program behind another

The symbols of two programs, one behind the other, make a program. Its jump table is made of the two
tables side by side, with the targets of the second moved. A dump of the second program reads there
as it did before; so does a dump of the first that can be executed, unless the second begins with a
digit: the look behind its last operand is the only one that crosses the seam.
-/

namespace ScrewLang

namespace Jumps

variable {first second : List (Option Brace)} {i j : Nat}

/-- A balanced word behind another makes a balanced word. -/
theorem Balanced.append (hf : Balanced first) (hs : Balanced second) :
    Balanced (first ++ second) := by
  induction hf with
  | nil => exact hs
  | other _ ih => exact ih.other
  | @loop body rest hb _ _ ih =>
    have hloop := Balanced.loop hb ih
    rwa [← List.cons_append, ← List.append_assoc] at hloop

theorem height_append_left (h : i ≤ first.length) :
    height (first ++ second) i = height first i := by
  rw [height, List.take_append_of_le_length h, height]

/-- Behind the seam heights rise and fall as in the second word. -/
theorem height_append_right (first second : List (Option Brace)) (i : Nat) :
    height (first ++ second) (first.length + i) = height first first.length + height second i := by
  rw [height, List.take_length_add_append, List.count_append, List.count_append, height,
    List.take_length, height]
  omega

/-- Braces that belong together in the first word do so before a second one. -/
theorem Paired.append_left (h : Paired first i j) : Paired (first ++ second) i j := by
  have hj : j < first.length := (List.getElem?_eq_some_iff.mp h.closing).1
  have hi : i < j := h.lt
  refine ⟨hi, ?_, ?_⟩
  · rw [height_append_left hj, height_append_left (by omega), h.level]
  · intro place hp hle
    rw [height_append_left (by omega), height_append_left (by omega)]
    exact h.above place hp hle

/-- Braces that belong together in the second word do so behind a first one. -/
theorem Paired.append_right (first : List (Option Brace)) (h : Paired second i j) :
    Paired (first ++ second) (first.length + i) (first.length + j) := by
  refine ⟨Nat.add_lt_add_left h.lt _, ?_, ?_⟩
  · rw [Nat.add_assoc, height_append_right, height_append_right, h.level]
  · intro place hp hle
    obtain ⟨later, rfl⟩ : ∃ later, place = first.length + later :=
      ⟨place - first.length, by omega⟩
    have := h.above later (by omega) (by omega)
    rw [height_append_right, height_append_right]
    omega

variable {jumps left right : Table}

/-- Before the seam the table of two words is that of the first. -/
theorem getD_table_append_left (h : table (first ++ second) = .ok jumps)
    (hl : table first = .ok left) (hi : i < first.length) :
    jumps.getD i none = left.getD i none := by
  cases he : left.getD i none with
  | none =>
    rw [getD_table_eq_none_iff hl] at he
    rw [getD_table_eq_none_iff h, List.getElem?_append_left hi]
    exact he
  | some j =>
    rw [getD_table_eq_some_iff hl] at he
    rw [getD_table_eq_some_iff h]
    exact he.imp Paired.append_left Paired.append_left

/-- Behind the seam the table of two words is that of the second, moved. -/
theorem getD_table_append_right (h : table (first ++ second) = .ok jumps)
    (hr : table second = .ok right) (i : Nat) :
    jumps.getD (first.length + i) none = (right.getD i none).map (first.length + ·) := by
  cases he : right.getD i none with
  | none =>
    rw [getD_table_eq_none_iff hr] at he
    rw [Option.map_none, getD_table_eq_none_iff h, List.getElem?_append_right (by omega),
      Nat.add_sub_cancel_left]
    exact he
  | some j =>
    rw [getD_table_eq_some_iff hr] at he
    rw [Option.map_some, getD_table_eq_some_iff h]
    exact he.imp (Paired.append_right first) (Paired.append_right first)

end Jumps

namespace Program

/-- The symbols of one program and then those of another. -/
def append (first second : Program) : Program :=
  ⟨first.symbols ++ second.symbols⟩

variable {first second : Program} {left right jumps : Jumps.Table}

/-- The braces of a program, with `none` for every other symbol. -/
def braceWord (program : Program) : List (Option Brace) :=
  program.symbols.toList.map Symbol.brace?

theorem braceWord_append (first second : Program) :
    (first.append second).braceWord = first.braceWord ++ second.braceWord := by
  simp [braceWord, append]

theorem length_braceWord (program : Program) : program.braceWord.length = program.size := by
  simp [braceWord, size]

/-- A program has a jump table just when its braces are balanced. -/
theorem exists_jumps_iff (program : Program) :
    (∃ jumps, program.jumps = .ok jumps) ↔ Jumps.Balanced program.braceWord :=
  Jumps.exists_table_iff

theorem getD_jumps_append_left (h : (first.append second).jumps = .ok jumps)
    (hl : first.jumps = .ok left) {place : Nat} (hp : place < first.size) :
    jumps.getD place none = left.getD place none := by
  rw [Program.jumps, ← braceWord, braceWord_append] at h
  rw [← length_braceWord] at hp
  exact Jumps.getD_table_append_left h hl hp

theorem getD_jumps_append_right (h : (first.append second).jumps = .ok jumps)
    (hr : second.jumps = .ok right) (place : Nat) :
    jumps.getD (first.size + place) none = (right.getD place none).map (first.size + ·) := by
  rw [Program.jumps, ← braceWord, braceWord_append] at h
  rw [← length_braceWord]
  exact Jumps.getD_table_append_right h hr place

theorem getElem?_append_left {place : Nat} (hp : place < first.size) :
    (first.append second).symbols[place]? = first.symbols[place]? :=
  Array.getElem?_append_left hp

theorem getElem?_append_right (first second : Program) (place : Nat) :
    (first.append second).symbols[first.size + place]? = second.symbols[place]? := by
  rw [append, size, Array.getElem?_append_right (by omega), Nat.add_sub_cancel_left]

end Program

namespace Dump

variable {first second : Program} {place cells : Nat} {range : Range}

/-- A dump of the second program reads as before. -/
theorem parse_append_right (first second : Program) (place cells : Nat) :
    parse (first.append second).symbols (first.size + place) cells =
      parse second.symbols place cells := by
  have hdigit (k : Nat) : digitAt? (first.append second).symbols (first.size + place + k) =
      digitAt? second.symbols (place + k) := by
    rw [digitAt?, Nat.add_assoc, Program.getElem?_append_right, digitAt?]
  have hsymbol (k : Nat) : (first.append second).symbols[first.size + place + k]? =
      second.symbols[place + k]? := by
    rw [Nat.add_assoc, Program.getElem?_append_right]
  simp only [parse, hdigit, hsymbol]

/-- A dump of the first program that can be executed reads as before, if no digit follows the
program. -/
theorem parse_append_left (h : parse first.symbols place cells = .ok range)
    (hd : digitAt? second.symbols 0 = none) :
    parse (first.append second).symbols place cells = .ok range := by
  have hwidth : place + width ≤ first.size := parse_width_le h
  rw [width] at hwidth
  have hdigit {k : Nat} (hk : k < first.size) :
      digitAt? (first.append second).symbols k = digitAt? first.symbols k := by
    rw [digitAt?, Program.getElem?_append_left hk, digitAt?]
  obtain ⟨hl, hc, hu, hn, hbounds⟩ := parse_eq_ok_iff.mp h
  refine parse_eq_ok_iff.mpr ⟨?_, ?_, ?_, ?_, hbounds⟩
  · rw [hdigit (by omega), hl]
  · rw [Program.getElem?_append_left (by omega), hc]
  · rw [hdigit (by omega), hu]
  · -- the symbol behind the last operand is the first of the second program, or belongs to the first
    rcases Nat.lt_or_eq_of_le hwidth with hlt | heq
    · rw [hdigit hlt, hn]
    · have hsecond := Program.getElem?_append_right first second 0
      rw [Nat.add_zero] at hsecond
      rw [heq, digitAt?, hsecond, ← digitAt?, hd]

end Dump

end ScrewLang
