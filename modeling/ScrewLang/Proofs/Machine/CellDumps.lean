import ScrewLang.Proofs.Machine.Session
import ScrewLang.Proofs.Program.DumpConditions

/-!
# Executing a cell dump

A `*` that is met by a run is executed as its operands have it. If they name cells in order and on
the tape, the bytes of these cells are emitted at once, the cells are cleared, the cursor is put on
the first of them, and the run goes on behind the operands; no other cell changes. Otherwise the run
fails with the first condition on a dump that is violated.
-/

namespace ScrewLang

/-! ### Ranges of cells, cell by cell -/

namespace Tape

variable {tape : Tape} {range : Dump.Range}

/-- Setting cells to zero changes these cells only. -/
theorem getElem?_zero (cells : Array Int8) (start count i : Nat) :
    (zero cells start count)[i]? =
      cells[i]?.map fun cell => if start ≤ i ∧ i < start + count then 0 else cell := by
  induction count with
  | zero =>
    have hnot : ¬(start ≤ i ∧ i < start + 0) := by omega
    simp only [zero, hnot, ↓reduceIte, Option.map_id']
  | succ count ih =>
    rw [zero, Array.getElem?_setIfInBounds, ih, size_zero]
    by_cases hi : start + count = i
    · subst hi
      by_cases hs : start + count < cells.size <;> simp [hs]
    · have hiff : start ≤ i ∧ i < start + (count + 1) ↔ start ≤ i ∧ i < start + count := by omega
      simp only [hi, ↓reduceIte, hiff]

/-- Clearing a range changes the cells in it only. -/
theorem getElem?_clear (tape : Tape) (range : Dump.Range) (i : Nat) :
    (tape.clear range).cells[i]? = tape.cells[i]?.map fun cell =>
      if range.lower ≤ i ∧ i ≤ range.upper then 0 else cell := by
  have hiff : range.lower ≤ i ∧ i < range.lower + (range.upper + 1 - range.lower) ↔
      range.lower ≤ i ∧ i ≤ range.upper := by omega
  show (zero tape.cells range.lower (range.upper + 1 - range.lower))[i]? = _
  simp only [getElem?_zero, hiff]

/-- The bytes of a range, one for each of its cells. -/
theorem getElem?_bytes (tape : Tape) (range : Dump.Range) (k : Nat) :
    (tape.bytes range)[k]? =
      if range.lower + k ≤ range.upper then tape.cells[range.lower + k]?.map Int8.toUInt8
      else none := by
  rw [bytes, List.getElem?_map, List.getElem?_take]
  by_cases hk : range.lower + k ≤ range.upper
  · rw [if_pos (by omega), if_pos hk, List.getElem?_drop, Array.getElem?_toList]
  · rw [if_neg (by omega), if_neg hk]
    rfl

theorem length_bytes (h : range.lower ≤ range.upper ∧ range.upper < tape.size) :
    (tape.bytes range).length = range.upper - range.lower + 1 := by
  rw [size] at h
  rw [bytes, List.length_map, List.length_take, List.length_drop, Array.length_toList]
  omega

/-- Clearing a range twice is clearing it once. -/
theorem clear_clear (tape : Tape) (range : Dump.Range) :
    (tape.clear range).clear range = tape.clear range := by
  have hcells : ((tape.clear range).clear range).cells = (tape.clear range).cells := by
    apply Array.ext_getElem?
    intro i
    rw [getElem?_clear, getElem?_clear, Option.map_map]
    congr 1
    funext cell
    simp only [Function.comp_apply]
    split <;> rfl
  exact congrArg (Tape.mk · range.lower) hcells

/-- The bytes of cleared cells are zeros. -/
theorem bytes_clear (h : range.lower ≤ range.upper ∧ range.upper < tape.size) :
    (tape.clear range).bytes range = List.replicate (range.upper - range.lower + 1) 0 := by
  apply List.ext_getElem?
  intro k
  rw [getElem?_bytes, List.getElem?_replicate, getElem?_clear]
  by_cases hk : range.lower + k ≤ range.upper
  · have hs : range.lower + k < tape.cells.size := by
      rw [size] at h
      omega
    have hzero : Int8.toUInt8 0 = 0 := rfl
    rw [if_pos hk, if_pos (by omega), Array.getElem?_eq_getElem hs]
    simp [hk, hzero]
  · rw [if_neg hk, if_neg (by omega)]

end Tape

/-! ### The instruction -/

/-- In the place of a symbol that is missing the terminator is found. -/
theorem Dump.foundGlyph_getElem? (program : Program) (place : Nat) :
    foundGlyph program.symbols[place]? = program.glyphs.getD place Program.endGlyph := by
  rw [foundGlyph, Program.glyphs, List.getD_eq_getElem?_getD, List.getElem?_append]
  by_cases hp : place < program.symbols.size
  · simp [hp]
  · have hone : ([Program.endGlyph][place - program.symbols.size]?).getD Program.endGlyph =
        Program.endGlyph := by
      cases place - program.symbols.size <;> rfl
    simp [hp, hone]

namespace Machine

namespace State

variable {program : Program} {jumps : Jumps.Table} {eof : EofPolicy} {controls : Controls}
  {state : State}

/-- What a dump of the cells from `lower` to `upper` makes of a state: it emits the bytes of these
cells in order, sets the cells to zero and leaves all others alone, puts the cursor on the first of
them, and goes on behind its operands. -/
structure Dumps (lower upper : Nat) (before after : State) : Prop where
  emits : ∃ emission : List UInt8,
    after.console =
      { before.console with emissions := before.console.emissions.push emission } ∧
    emission.length = upper - lower + 1 ∧
    ∀ k ≤ upper - lower, emission[k]? = before.tape.cells[lower + k]?.map Int8.toUInt8
  clears : ∀ i, lower ≤ i → i ≤ upper → after.tape.cells[i]? = some 0
  keeps : ∀ i, i < lower ∨ upper < i → after.tape.cells[i]? = before.tape.cells[i]?
  cursor : after.tape.cursor = lower
  place : after.place = before.place + 4
  steps : after.steps = before.steps + 1

/-- A round that meets a `*` goes on as the operands of the dump have it. -/
theorem round_star (jumps : Jumps.Table) (eof : EofPolicy)
    (hd : state.Dispatches program controls .star) (ho : state.console.outputFault = none) :
    state.round ⟨program.symbols, jumps, eof⟩ .live controls =
      match Dump.parse program.symbols state.place state.tape.size with
      | .ok range => .ok ⟨state.tape.clear range, state.place + Dump.width, state.steps + 1,
          state.console.emit (state.tape.bytes range), state.rows⟩
      | .error cause => .error (.failed (.dump state.place cause)) := by
  obtain ⟨hs, hr⟩ := hd
  simp only [round, hs, hr, decision, plan]
  cases Dump.parse program.symbols state.place state.tape.size with
  | error cause => rfl
  | ok range =>
    have hrefusal : (Action.dump range).refusal? state.tape state.console = none := by
      simp [Action.refusal?, Console.emitRefusal?, ho]
    simp only [hrefusal]
    rfl

/-- What is left by a dump that can be executed. -/
theorem dumps_of_bounds {range : Dump.Range}
    (h : range.lower ≤ range.upper ∧ range.upper < state.tape.size)
    (ho : state.console.outputFault = none) :
    state.Dumps range.lower range.upper ⟨state.tape.clear range, state.place + Dump.width,
      state.steps + 1, state.console.emit (state.tape.bytes range), state.rows⟩ where
  emits := by
    refine ⟨state.tape.bytes range, ?_, Tape.length_bytes h, fun k hk => ?_⟩
    · simp [Console.emit, ho]
    · rw [Tape.getElem?_bytes, if_pos (by omega)]
  clears i hl hu := by
    have hi : i < state.tape.cells.size := Nat.lt_of_le_of_lt hu h.2
    rw [Tape.getElem?_clear, Array.getElem?_eq_getElem hi, Option.map_some, if_pos ⟨hl, hu⟩]
  keeps i hi := by
    have hnot : ¬(range.lower ≤ i ∧ i ≤ range.upper) := by omega
    simp only [Tape.getElem?_clear, hnot, ↓reduceIte, Option.map_id']
  cursor := rfl
  place := rfl
  steps := rfl

/-- A dump behind which the same dump is written leaves zeros to that one. -/
theorem round_again {range : Dump.Range}
    (h : range.lower ≤ range.upper ∧ range.upper < state.tape.size)
    (hd : state.Dispatches program controls .star) (ho : state.console.outputFault = none)
    (ht : state.tape.clear range = state.tape)
    (hp : Dump.parse program.symbols state.place state.tape.size = .ok range) :
    ∃ final, state.round ⟨program.symbols, jumps, eof⟩ .live controls = .ok final ∧
      final.tape = state.tape ∧
      final.console = { state.console with
        emissions := state.console.emissions.push
          (List.replicate (range.upper - range.lower + 1) 0) } := by
  refine ⟨_, by rw [round_star jumps eof hd ho, hp], ht, ?_⟩
  rw [← Tape.bytes_clear h, ht]
  simp [Console.emit, ho]

end State

/-- A cell dump is executed exactly as it is written. Where a run with a working output meets a `*`,
the round goes on if and only if a digit, a `^`, a digit and no third digit follow, and the digits
name cells in order and on the tape. It has then dumped these cells; and if the same dump is written
behind the first and is met in its turn, as many zeros are emitted and the tape stays as it is.
Otherwise the round fails with the first condition that the dump violates, and what a fault shows as
found is the character at that place of the text form, the terminator from its end on. -/
theorem cell_dump_is_exact {program : Program} {controls : Controls} {state : State}
    (hd : state.Dispatches program controls .star) (ho : state.console.outputFault = none)
    (jumps : Jumps.Table) (eof : EofPolicy) :
    let round := State.round ⟨program.symbols, jumps, eof⟩ .live controls
    let written := Dump.Written program.symbols
    let violated := Dump.Condition.firstViolated program.symbols state.place state.tape.size
    ((∃ after, round state = .ok after) ↔ ∃ lower upper, written state.place lower upper ∧
        lower ≤ upper ∧ upper.val < state.tape.size) ∧
    (∀ after, round state = .ok after → ∀ lower upper, written state.place lower upper →
      state.Dumps lower upper after ∧
      (after.Dispatches program controls .star → written after.place lower upper →
        ∃ final, round after = .ok final ∧ final.tape = after.tape ∧
          final.console = { after.console with
            emissions := after.console.emissions.push
              (List.replicate (upper.val - lower.val + 1) 0) })) ∧
    (∀ outcome, round state = .error outcome ↔ ∃ condition, violated = some condition ∧
      outcome = .failed (.dump state.place
        (condition.fault program.symbols state.place state.tape.size))) ∧
    ∀ place, Dump.foundGlyph program.symbols[place]? = program.glyphs.getD place '~' := by
  intro round written violated
  have hround := State.round_star jumps eof hd ho
  refine ⟨?_, ?_, ?_, Dump.foundGlyph_getElem? program⟩
  · rw [← Dump.exists_parse_iff]
    show (∃ after, state.round _ .live controls = .ok after) ↔ _
    rw [hround]
    cases Dump.parse program.symbols state.place state.tape.size <;> simp
  · intro after hafter lower upper hw
    cases hp : Dump.parse program.symbols state.place state.tape.size with
    | error cause =>
      rw [hp] at hround
      cases hround.symm.trans hafter
    | ok range =>
      rw [hp] at hround
      cases hround.symm.trans hafter
      obtain rfl := hw.eq_of_parse hp
      have hbounds := Dump.parse_bounds hp
      refine ⟨State.dumps_of_bounds hbounds ho, fun hagain hsecond => ?_⟩
      rw [← Tape.size_clear state.tape] at hbounds
      exact State.round_again hbounds hagain ho (Tape.clear_clear state.tape _)
        (hsecond.parse hbounds.1 hbounds.2)
  · intro outcome
    show state.round _ .live controls = .error outcome ↔ _
    rw [hround]
    cases hp : Dump.parse program.symbols state.place state.tape.size with
    | error cause =>
      obtain ⟨condition, hv, rfl⟩ := Dump.parse_eq_error_iff.mp hp
      simp [violated, hv, eq_comm]
    | ok range =>
      have hnone (condition : Dump.Condition) : violated ≠ some condition := by
        intro hv
        rw [Dump.parse_eq_error_iff.mpr ⟨condition, hv, rfl⟩] at hp
        cases hp
      simp [hnone]

/-- Two dumps of the last two of three cells, one behind the other: the first emits the bytes of a
positive and of a negative cell, the second two zeros. A third one, with one bound only, is cut off
by the end of the program. -/
theorem cell_dump_is_exact_twice :
    let program : Program :=
      ⟨#[.star, .digit 1, .caret, .digit 2, .star, .digit 1, .caret, .digit 2, .star, .digit 1]⟩
    let jumps : Jumps.Table := Array.replicate 10 none
    let round := State.round ⟨program.symbols, jumps, .zero⟩ .live Controls.none
    let before : State := ⟨⟨#[9, 5, -1], 0⟩, 0, 0, Console.ofInput [7], #[]⟩
    let after : State := ⟨⟨#[9, 0, 0], 1⟩, 4, 1, ⟨[7], #[[5, 255]], none, none, 0⟩, #[]⟩
    let last : State := ⟨⟨#[9, 0, 0], 1⟩, 8, 2, Console.ofInput [7], #[]⟩
    (before.Dispatches program Controls.none .star ∧ last.Dispatches program Controls.none .star) ∧
      (round before = .ok after ∧ before.Dumps 1 2 after ∧
        ∃ final, round after = .ok final ∧ final.tape = after.tape ∧
          final.console = ⟨[7], #[[5, 255], [0, 0]], none, none, 0⟩) ∧
      round last = .error (.failed (.dump 8 (.missingSeparator none))) ∧
      Dump.foundGlyph none = '~' := by
  intro program jumps round before after last
  have hbefore : before.Dispatches program Controls.none .star := ⟨rfl, rfl⟩
  have hlast : last.Dispatches program Controls.none .star := ⟨rfl, rfl⟩
  have hround : round before = .ok after := rfl
  have hfirst : Dump.Written program.symbols 0 1 2 := ⟨rfl, rfl, rfl, by decide⟩
  have hsecond : Dump.Written program.symbols 4 1 2 := ⟨rfl, rfl, rfl, by decide⟩
  obtain ⟨-, heffect, -, -⟩ := cell_dump_is_exact hbefore rfl jumps .zero
  obtain ⟨hdumps, hagain⟩ := heffect after hround 1 2 hfirst
  obtain ⟨-, -, hfails, hfound⟩ := cell_dump_is_exact hlast rfl jumps .zero
  exact ⟨⟨hbefore, hlast⟩, ⟨hround, hdumps, hagain ⟨rfl, rfl⟩ hsecond⟩,
    (hfails _).mpr ⟨.separator, rfl, rfl⟩, hfound 10⟩

end Machine

end ScrewLang
