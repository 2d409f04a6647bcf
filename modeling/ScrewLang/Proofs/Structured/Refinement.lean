import ScrewLang.Proofs.Structured.Placement

/-!
# Flat runs refine structured loops

A run of a program with a jump table ends exactly when something can be derived for its syntax tree,
and what is derived is how the run ends, on which tape and with which console.
-/

namespace ScrewLang

namespace Structured

open Machine (State Image Controls Outcome)

variable {image : Image} {state : State} {block : Block}

/-- What is derived for a tree is an end. -/
theorem Block.Runs.outcome_ne_unfinished {eof : EofPolicy} {store final : Store} {outcome : Outcome}
    (h : block.Runs eof store outcome final) : outcome ≠ .unfinished := by
  obtain ⟨ending, -, rfl⟩ := h
  unfold Block.outcome
  cases ending with
  | some fault => simp
  | none => cases final.console.flushRefusal? <;> simp

/-- A run that has executed the whole program ends as its tree did. -/
theorem round_of_arrives {ending : Option Machine.Fault} (hw : image.symbols.size = block.width)
    (h : Arrives image block.width ending state) :
    state.round image .live Controls.none = .error (block.outcome ending (.ofState state)) := by
  cases ending with
  | some fault => exact h
  | none =>
    have hplace : state.place = block.width := h
    have hs : image.symbols[state.place]? = none :=
      Array.getElem?_eq_none_iff.mpr (Nat.le_of_eq (hw.trans hplace.symm))
    cases hf : state.console.flushRefusal? with
    | none =>
      have hc : state.closing? .live = none := by rw [State.closing?, hf, Option.map_none]
      rw [State.round_eq_halted_iff.mpr ⟨hs, hc⟩]
      simp only [Block.outcome, Store.ofState, hf]
    | some cause =>
      have hc : state.closing? .live = some (.device state.place cause) := by
        rw [State.closing?, hf, Option.map_some]
      rw [State.round_eq_failed_iff.mpr (.inl ⟨hs, hc⟩)]
      simp only [Block.outcome, Store.ofState, hf, hplace]

/-- What is derived for the tree of a program is what its flat run comes to. -/
theorem runs_iff (state : State) {outcome : Outcome} {final : Store} (hp : block.Placed image 0)
    (hw : image.symbols.size = block.width) (hs : state.place = 0) :
    block.Runs image.eof (.ofState state) outcome final ↔
      ∃ count reached, state.after image .live Controls.none count = some reached ∧
        reached.round image .live Controls.none = .error outcome ∧
        Store.ofState reached = final := by
  have forward : ∀ {ending final}, Exec image.eof 0 block (.ofState state) ending final →
      ∃ count reached, state.after image .live Controls.none count = some reached ∧
        reached.round image .live Controls.none = .error (block.outcome ending final) ∧
        Store.ofState reached = final := by
    intro ending final hx
    obtain ⟨count, reached, ha, rfl, harr⟩ := hx.simulated hp hs rfl
    rw [Nat.zero_add] at harr
    exact ⟨count, reached, ha, round_of_arrives hw harr, rfl⟩
  constructor
  · rintro ⟨ending, hx, rfl⟩
    exact forward hx
  · rintro ⟨count, reached, ha, he, rfl⟩
    rw [← hs] at hp
    obtain ⟨ending, final, hx⟩ := exists_exec_of_end ha he hp
    rw [hs] at hx
    obtain ⟨other, last, hl, hle, rfl⟩ := forward hx
    obtain ⟨rfl, rfl⟩ := State.end_unique ha he hl hle
    exact ⟨ending, hx, rfl⟩

section Programs

variable {program : Program} {jumps : Jumps.Table} {tape : Tape} {eof : EofPolicy}
  {console : Console} {outcome : Outcome} {final : Store}

private theorem runs_iff_after (h : program.jumps = .ok jumps)
    (hb : Block.parse? program.symbols.toList = some block) :
    block.Runs eof ⟨tape, console⟩ outcome final ↔
      ∃ count reached, State.after ⟨program.symbols, jumps, eof⟩ .live Controls.none count
          (Machine.start ⟨program, tape, eof, console⟩) = some reached ∧
        reached.round ⟨program.symbols, jumps, eof⟩ .live Controls.none = .error outcome ∧
        Store.ofState reached = final := by
  obtain ⟨other, ho, hp⟩ := placed_of_jumps h eof
  rw [hb] at ho
  cases ho
  have hw : program.symbols.size = block.width := by
    rw [← Block.length_symbols, Block.symbols_of_parse? hb, Array.length_toList]
  exact runs_iff (Machine.start ⟨program, tape, eof, console⟩) hp hw rfl

/-- What is derived for the tree of a program, its run comes to when it has enough fuel. -/
theorem run_of_runs (h : program.jumps = .ok jumps)
    (hb : Block.parse? program.symbols.toList = some block)
    (hr : block.Runs eof ⟨tape, console⟩ outcome final) :
    ∃ bound, ∀ fuel, bound < fuel →
      let result := Machine.run fuel .live Controls.none ⟨program, tape, eof, console⟩
      result.outcome = outcome ∧ result.machine = ⟨program, final.tape, eof, final.console⟩ := by
  obtain ⟨count, reached, ha, he, rfl⟩ := (runs_iff_after h hb).mp hr
  refine ⟨count, fun fuel hf => ?_⟩
  rw [Machine.run_of_jumps fuel .live Controls.none h, Machine.ready,
    Machine.runFrom_of_after ha he hf]
  exact ⟨rfl, rfl⟩

/-- Once a run has ended, what it has come to is all that is derived for the tree of its program. -/
theorem runs_iff_of_ended (h : program.jumps = .ok jumps)
    (hb : Block.parse? program.symbols.toList = some block) {fuel : Nat} :
    let result := Machine.run fuel .live Controls.none ⟨program, tape, eof, console⟩
    result.outcome ≠ .unfinished →
      (block.Runs eof ⟨tape, console⟩ outcome final ↔
        result.outcome = outcome ∧ result.machine = ⟨program, final.tape, eof, final.console⟩) := by
  intro result hu
  obtain ⟨ending, last, hrun⟩ : ∃ ending last, Machine.runFrom ⟨program.symbols, jumps, eof⟩ .live
      Controls.none fuel (Machine.start ⟨program, tape, eof, console⟩) = (ending, last) :=
    ⟨_, _, rfl⟩
  have hresult : result.outcome = ending ∧
      result.machine = ⟨program, last.tape, eof, last.console⟩ := by
    simp only [result]
    rw [Machine.run_of_jumps fuel .live Controls.none h, Machine.ready, hrun]
    exact ⟨rfl, rfl⟩
  rw [hresult.1] at hu
  rw [runs_iff_after h hb, hresult.1, hresult.2]
  obtain ⟨hf, -⟩ | ⟨count, -, ha, he⟩ := Machine.runFrom_eq_iff.mp hrun
  · exact absurd hf hu
  · constructor
    · rintro ⟨other, reached, hra, hre, rfl⟩
      obtain ⟨rfl, rfl⟩ := State.end_unique ha he hra hre
      exact ⟨rfl, rfl⟩
    · rintro ⟨rfl, hm⟩
      cases final
      cases hm
      exact ⟨count, last, ha, he, rfl⟩

/-- A flat run refines the structure of its program. The program has a syntax tree, and on every
tape and console, under every policy for the end of the input, the run ends exactly when something
is derived for the tree. Then this is how the run ends, and what it leaves on the tape and the
console. -/
theorem flat_run_refines_structure (h : program.jumps = .ok jumps) :
    ∃ block, Block.parse? program.symbols.toList = some block ∧
      block.symbols = program.symbols.toList ∧
      ∀ tape eof console,
        let result fuel := Machine.run fuel .live Controls.none ⟨program, tape, eof, console⟩
        ((∃ fuel, (result fuel).outcome ≠ .unfinished) ↔
          ∃ outcome final, block.Runs eof ⟨tape, console⟩ outcome final) ∧
        ∀ fuel, (result fuel).outcome ≠ .unfinished → ∀ outcome final,
          block.Runs eof ⟨tape, console⟩ outcome final ↔
            (result fuel).outcome = outcome ∧
              (result fuel).machine = ⟨program, final.tape, eof, final.console⟩ := by
  obtain ⟨block, hb, -⟩ := placed_of_jumps h .zero
  refine ⟨block, hb, Block.symbols_of_parse? hb, fun tape eof console => ?_⟩
  intro result
  refine ⟨⟨?_, ?_⟩, fun fuel hu outcome final => runs_iff_of_ended h hb hu⟩
  · rintro ⟨fuel, hu⟩
    refine ⟨_, ⟨(result fuel).machine.tape, (result fuel).machine.console⟩,
      (runs_iff_of_ended h hb hu).mpr ⟨rfl, ?_⟩⟩
    simp only [result]
    rw [Machine.run_of_jumps fuel .live Controls.none h]
    rfl
  · rintro ⟨outcome, final, hr⟩
    obtain ⟨bound, hrun⟩ := run_of_runs h hb hr
    refine ⟨bound + 1, ?_⟩
    rw [(hrun (bound + 1) (Nat.lt_succ_self bound)).1]
    exact hr.outcome_ne_unfinished

/-- A program that counts down from a byte it reads and then leaves the tape, as its tree does. -/
theorem flat_run_refines_structure_countdown :
    Block.Runs .zero
      (.leaf .input (.loop (.leaf .decrement (.leaf .output .done)) (.leaf .left .done)))
      ⟨Tape.blank 1, Console.ofInput [2, 7]⟩ (.failed (.cursorOutOfBounds 5 0 .left))
      ⟨Tape.blank 1, ⟨[7], #[[1], [0]], none, none, 0⟩⟩ := by
  have hj : Program.jumps
      ⟨#[.input, .brace .opening, .decrement, .output, .brace .closing, .left]⟩ =
      .ok #[none, some 4, none, none, some 1, none] := rfl
  have htree : Block.parse? [.input, .brace .opening, .decrement, .output, .brace .closing, .left] =
      some (.leaf .input (.loop (.leaf .decrement (.leaf .output .done)) (.leaf .left .done))) := by
    simp [Block.parse?, Block.read, Symbol.brace?, Leaf.ofSymbol, Leaf.width]
  obtain ⟨block, hb, -, hr⟩ := flat_run_refines_structure hj
  obtain rfl := Option.some.inj (htree.symm.trans hb)
  exact ((hr (Tape.blank 1) .zero (Console.ofInput [2, 7])).2 20 (by decide) _ _).mpr (by decide)

end Programs

end Structured

end ScrewLang
