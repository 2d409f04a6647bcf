import ScrewLang.Proofs.Machine.Limits
import ScrewLang.Proofs.Machine.Session

/-!
# Longer tapes

Blank cells behind the end of a tape change nothing for a program that does not ask for them. A run
on the longer tape goes through the states of the run on the shorter one, each with the blank cells
added, until the shorter tape is at an end: at a move to the right from its last cell, or at a dump
of cells behind that one.
-/

namespace ScrewLang

/-! ### Lengthening a tape -/

namespace Tape

/-- A tape with some more blank cells at its end. -/
def lengthen (extra : Nat) (tape : Tape) : Tape :=
  ⟨tape.cells ++ Array.replicate extra 0, tape.cursor⟩

variable {tape : Tape} {range : Dump.Range} {extra : Nat}

@[simp]
theorem cursor_lengthen : (tape.lengthen extra).cursor = tape.cursor := rfl

@[simp]
theorem size_lengthen : (tape.lengthen extra).size = tape.size + extra := by
  simp [lengthen, size]

/-- The current cell keeps its value: what is read behind the end of a tape is blank as well. -/
@[simp]
theorem get_lengthen : (tape.lengthen extra).get = tape.get := by
  show (tape.cells ++ Array.replicate extra 0).getD tape.cursor 0 = tape.cells.getD tape.cursor 0
  rw [Array.getD_eq_getD_getElem?, Array.getD_eq_getD_getElem?, Array.getElem?_append]
  split
  · rfl
  · next hc =>
    rw [Array.getElem?_eq_none (Nat.le_of_not_lt hc), Array.getElem?_replicate]
    split <;> rfl

/-- A longer blank tape is a shorter one lengthened. -/
theorem lengthen_blank {n m : Nat} (hn : 1 ≤ n) (hm : n ≤ m) :
    (blank n).lengthen (m - n) = blank m := by
  have hsize : max n 1 + (m - n) = max m 1 := by omega
  rw [lengthen, blank, Array.replicate_append_replicate, hsize, blank]

theorem modify_lengthen (change : Int8 → Int8) (hw : tape.WellFormed) :
    (tape.lengthen extra).modify change = (tape.modify change).lengthen extra := by
  have hget : (tape.lengthen extra).get = tape.get := get_lengthen
  show Tape.mk ((tape.cells ++ Array.replicate extra 0).setIfInBounds tape.cursor
    (change (tape.lengthen extra).get)) tape.cursor = _
  rw [Array.setIfInBounds_append_left hw, hget]
  rfl

theorem bytes_lengthen (h : range.lower ≤ range.upper ∧ range.upper < tape.size) :
    (tape.lengthen extra).bytes range = tape.bytes range := by
  have hlength : tape.cells.toList.length = tape.size := Array.length_toList
  rw [bytes, bytes, lengthen, Array.toList_append, List.drop_append_of_le_length (by omega),
    List.take_append_of_le_length]
  rw [List.length_drop]
  omega

/-- Setting cells to zero leaves everything behind them alone. -/
theorem zero_append {cells : Array Int8} (more : Array Int8) {start count : Nat}
    (h : start + count ≤ cells.size) :
    zero (cells ++ more) start count = zero cells start count ++ more := by
  induction count with
  | zero => rfl
  | succ count ih =>
    rw [zero, ih (by omega), zero, Array.setIfInBounds_append_left]
    rw [size_zero]
    omega

theorem clear_lengthen (h : range.lower ≤ range.upper ∧ range.upper < tape.size) :
    (tape.lengthen extra).clear range = (tape.clear range).lengthen extra := by
  rw [size] at h
  show Tape.mk (zero (tape.cells ++ Array.replicate extra 0) _ _) _ = _
  rw [zero_append _ (by omega)]
  rfl

end Tape

namespace Machine

/-- A fault that would not arise on a tape that is long enough. -/
def Fault.TapeTooShort : Fault → Prop
  | .cursorOutOfBounds _ _ .right => True
  | .dump _ (.outOfRange _ _) => True
  | _ => False

/-- A run that ended because the tape was too short. -/
def Outcome.TapeTooShort : Outcome → Prop
  | .failed fault => fault.TapeTooShort
  | _ => False

/-! ### The same actions on a lengthened tape -/

variable {image : Image} {tape : Tape} {place extra : Nat} {action : Action}

/-- The same is planned on a lengthened tape, unless the tape was too short. -/
theorem plan_lengthen (image : Image) (tape : Tape) (place : Nat) (symbol : Symbol) (extra : Nat) :
    (∃ fault, fault.TapeTooShort ∧ plan image tape place symbol = .error fault) ∨
      plan image (tape.lengthen extra) place symbol = plan image tape place symbol := by
  cases symbol with
  | right =>
    by_cases ht : tape.cursor + 1 < tape.size
    · have hlong : tape.cursor + 1 < tape.size + extra := by omega
      exact .inr (by simp [plan, ht, hlong])
    · exact .inl ⟨.cursorOutOfBounds place tape.cursor .right, trivial, by simp [plan, ht]⟩
  | brace side =>
    cases side with
    | opening | closing => exact .inr (by simp only [plan, Tape.get_lengthen])
  | star =>
    rcases Dump.parse_of_le image.symbols place (Nat.le_add_right tape.size extra) with
      ⟨upper, hp⟩ | hp
    · exact .inl ⟨.dump place (.outOfRange upper tape.size), trivial, by simp only [plan, hp]⟩
    · exact .inr (by simp only [plan, Tape.size_lengthen, hp])
  | left | increment | decrement | output | input | caret | digit => exact .inr rfl

namespace Action

/-- The console refuses the same. -/
theorem Admissible.refusal?_lengthen (h : action.Admissible image tape place) (console : Console) :
    action.refusal? (tape.lengthen extra) console = action.refusal? tape console := by
  cases action with
  | dump range => rw [refusal?, Tape.bytes_lengthen (Dump.parse_bounds h), refusal?]
  | emit => rw [refusal?, Tape.get_lengthen, refusal?]
  | move | increment | decrement | read | skip | enter | loop | leave => rfl

/-- The same is read and emitted. -/
theorem Admissible.converse_lengthen (h : action.Admissible image tape place) (console : Console) :
    action.converse (tape.lengthen extra) console = action.converse tape console := by
  cases action with
  | dump range => rw [converse, Tape.bytes_lengthen (Dump.parse_bounds h), converse]
  | emit => rw [converse, Tape.get_lengthen, converse]
  | move | increment | decrement | read | skip | enter | loop | leave => rfl

/-- The trace says the same. -/
theorem Admissible.describe_lengthen (h : action.Admissible image tape place) (eof : EofPolicy) :
    action.describe eof (tape.lengthen extra) = action.describe eof tape := by
  cases action with
  | dump range =>
    unfold describe
    simp only [Tape.bytes_lengthen (Dump.parse_bounds h)]
  | increment | decrement | emit | read =>
    unfold describe
    simp only [Tape.get_lengthen, Tape.cursor_lengthen]
  | move | skip | enter | loop | leave => rfl

/-- An action does the same to a lengthened tape, and nothing to the cells added to it. -/
theorem Admissible.apply_lengthen (h : action.Admissible image tape place) (hw : tape.WellFormed)
    (eof : EofPolicy) (byte? : Option UInt8) :
    action.apply eof byte? (tape.lengthen extra) =
      (action.apply eof byte? tape).lengthen extra := by
  cases action with
  | dump range => exact Tape.clear_lengthen (Dump.parse_bounds h)
  | increment | decrement | read => rw [apply, Tape.modify_lengthen _ hw, apply]
  | move | emit | skip | enter | loop | leave => rfl

end Action

/-! ### The same run on a lengthened tape -/

namespace State

/-- A state with some more blank cells at the end of the tape. -/
def lengthen (extra : Nat) (state : State) : State :=
  { state with tape := state.tape.lengthen extra }

variable {program : Program} {cells : Nat} {jumps : Jumps.Table} {eof : EofPolicy} {mode : Mode}
  {controls : Controls} {state next final : State} {outcome : Outcome}

theorem perform_lengthen (symbol : Symbol) (ha : action.Admissible image state.tape state.place)
    (hw : state.tape.WellFormed) :
    (state.lengthen extra).perform image mode symbol action =
      (state.perform image mode symbol action).lengthen extra := by
  cases mode with
  | live =>
    simp only [perform, lengthen, ha.converse_lengthen, ha.apply_lengthen hw]
  | rehearsal =>
    simp only [perform, lengthen, row, ha.describe_lengthen, ha.apply_lengthen hw,
      Tape.get_lengthen, Tape.cursor_lengthen]

/-- The same is decided on a lengthened tape, unless the tape was too short. -/
theorem decision_lengthen (image : Image) (mode : Mode) (symbol : Symbol) (extra : Nat)
    (hw : state.tape.WellFormed) :
    (∃ fault, fault.TapeTooShort ∧ state.decision image mode symbol = .error fault) ∨
      (state.lengthen extra).decision image mode symbol = state.decision image mode symbol := by
  rcases plan_lengthen image state.tape state.place symbol extra with ⟨fault, hf, hp⟩ | hp
  · exact .inl ⟨fault, hf, decision_eq_error_iff.mpr (.inl hp)⟩
  · apply Or.inr
    rw [decision, decision]
    simp only [lengthen, hp]
    cases hplan : plan image state.tape state.place symbol with
    | error fault => rfl
    | ok action => simp only [(admissible_of_plan hw hplan).refusal?_lengthen]

/-- A round on a lengthened tape goes as on the shorter one, unless that one was too short. -/
theorem round_lengthen (image : Image) (mode : Mode) (controls : Controls) (extra : Nat)
    (hw : state.tape.WellFormed) :
    (∃ fault, fault.TapeTooShort ∧ state.round image mode controls = .error (.failed fault)) ∨
      (state.lengthen extra).round image mode controls =
        (state.round image mode controls).map (lengthen extra) := by
  rw [State.round, State.round]
  simp only [show (state.lengthen extra).place = state.place from rfl,
    show (state.lengthen extra).steps = state.steps from rfl,
    show (state.lengthen extra).closing? mode = state.closing? mode from rfl]
  cases image.symbols[state.place]? with
  | none =>
    cases state.closing? mode with
    | none => exact .inr rfl
    | some fault => exact .inr rfl
  | some symbol =>
    cases controls.refusal? state.steps with
    | some fault => exact .inr rfl
    | none =>
      rcases decision_lengthen image mode symbol extra hw with ⟨fault, hf, hd⟩ | hd
      · exact .inl ⟨fault, hf, by simp only [hd]⟩
      · apply Or.inr
        simp only [hd]
        cases hdecision : state.decision image mode symbol with
        | error fault => rfl
        | ok action =>
          have ha := admissible_of_plan hw (decision_eq_ok_iff.mp hdecision).1
          simp only [perform_lengthen symbol ha hw]
          rfl

/-- A round that goes on does so on a lengthened tape. -/
theorem round_lengthen_ok (extra : Nat) (hw : state.tape.WellFormed)
    (h : state.round image mode controls = .ok next) :
    (state.lengthen extra).round image mode controls = .ok (next.lengthen extra) := by
  rcases round_lengthen image mode controls extra hw with ⟨fault, -, hf⟩ | hr
  · rw [h] at hf
    cases hf
  · rw [hr, h]
    rfl

/-- A round that ends a run ends it in the same way on a lengthened tape, unless the tape was too
short. -/
theorem round_lengthen_error (extra : Nat) (hw : state.tape.WellFormed)
    (h : state.round image mode controls = .error outcome) (ho : ¬outcome.TapeTooShort) :
    (state.lengthen extra).round image mode controls = .error outcome := by
  rcases round_lengthen image mode controls extra hw with ⟨fault, hshort, hf⟩ | hr
  · rw [h] at hf
    cases hf
    exact absurd hshort ho
  · rw [hr, h]
    rfl

/-- The states of a run are those of the run on a lengthened tape. -/
theorem InBounds.after_lengthen {count : Nat} (extra : Nat) (h : state.InBounds program cells)
    (hj : program.jumps = .ok jumps)
    (ha : state.after ⟨program.symbols, jumps, eof⟩ mode controls count = some final) :
    (state.lengthen extra).after ⟨program.symbols, jumps, eof⟩ mode controls count =
      some (final.lengthen extra) := by
  induction count generalizing state with
  | zero =>
    rw [after_zero] at ha ⊢
    cases ha
    rfl
  | succ count ih =>
    cases hr : state.round ⟨program.symbols, jumps, eof⟩ mode controls with
    | error outcome =>
      rw [after_succ_of_end count hr] at ha
      cases ha
    | ok next =>
      rw [after_succ_of_round count hr] at ha
      rw [after_succ_of_round count (round_lengthen_ok extra h.cursor hr)]
      exact ih (h.round hj hr) ha

/-- A run that does not find the tape too short ends on a lengthened tape as it does. -/
theorem InBounds.runFrom_lengthen {fuel : Nat} (extra : Nat) (h : state.InBounds program cells)
    (hj : program.jumps = .ok jumps)
    (hr : runFrom ⟨program.symbols, jumps, eof⟩ mode controls fuel state = (outcome, final))
    (ho : ¬outcome.TapeTooShort) :
    runFrom ⟨program.symbols, jumps, eof⟩ mode controls fuel (state.lengthen extra) =
      (outcome, final.lengthen extra) := by
  apply runFrom_eq_iff.mpr
  rcases runFrom_eq_iff.mp hr with ⟨hu, ha⟩ | ⟨count, hc, ha, he⟩
  · exact .inl ⟨hu, h.after_lengthen extra hj ha⟩
  · have hw := (h.after hj ha).cursor
    exact .inr ⟨count, hc, h.after_lengthen extra hj ha, round_lengthen_error extra hw he ho⟩

end State

/-- A machine with some more blank cells at the end of its tape. -/
def lengthen (extra : Nat) (machine : Machine) : Machine :=
  { machine with tape := machine.tape.lengthen extra }

/-- A longer tape changes nothing for a program that fits the shorter one. Every state of a run on
`n` cells is one of the run on `m` cells, but for `m - n` blank cells at the end of the tape; and
unless the run on `n` cells ends because they are too few, the run on `m` cells has the same result,
again but for the blank cells. If they are too few, the run on `m` cells comes to the machine that
the other run has left, with the blank cells, after the same instructions. -/
theorem longer_tape_changes_nothing (program : Program) (eof : EofPolicy) (console : Console)
    {n m : Nat} (hn : 1 ≤ n) (hm : n ≤ m) (fuel : Nat) (mode : Mode) (controls : Controls) :
    let short := fresh program n eof console
    let long := fresh program m eof console
    let result := short.run fuel mode controls
    (∀ count state, short.Reaches mode controls count state →
        long.Reaches mode controls count (state.lengthen (m - n))) ∧
      result.machine.tape.size = n ∧
      (¬result.outcome.TapeTooShort →
        long.run fuel mode controls =
          { result with machine := result.machine.lengthen (m - n) }) ∧
      (result.outcome.TapeTooShort →
        long.run result.steps mode controls =
          ⟨.unfinished, result.machine.lengthen (m - n), result.steps, result.lines⟩) := by
  intro short long result
  have hlong : long = short.lengthen (m - n) := by
    show fresh program m eof console = _
    rw [fresh, ← Tape.lengthen_blank hn hm]
    rfl
  have hbounds : short.start.InBounds program n :=
    (keeps_fresh program n eof console).inBounds_start
  have hreaches : ∀ count state, short.Reaches mode controls count state →
      long.Reaches mode controls count (state.lengthen (m - n)) := by
    rintro count state ⟨jumps, hj, ha⟩
    rw [hlong]
    exact ⟨jumps, hj, hbounds.after_lengthen (m - n) hj ha⟩
  refine ⟨hreaches, ?_⟩
  cases hj : program.jumps with
  | error place =>
    have hshort : result = ⟨.failed (.unmatchedBrace place), short, 0, []⟩ :=
      run_of_unmatched fuel mode controls hj
    rw [hshort]
    refine ⟨hbounds.size.trans (Nat.max_eq_left hn), fun _ => ?_, fun h => h.elim⟩
    rw [hlong]
    exact run_of_unmatched fuel mode controls hj
  | ok jumps =>
    obtain ⟨outcome, final, hr⟩ : ∃ outcome final,
        runFrom (short.ready jumps) mode controls fuel short.start = (outcome, final) :=
      ⟨_, _, rfl⟩
    have hshort : result = ⟨outcome, short.resumed final, final.steps, listing mode final.rows⟩ :=
      run_of_runFrom hj hr
    obtain ⟨count, ha⟩ :=
      exists_after_runFrom (short.ready jumps) mode controls fuel short.start
    rw [hr] at ha
    have hsteps : final.steps = 0 + count := State.steps_of_after ha
    have hk : (short.lengthen (m - n)).program.jumps = .ok jumps := hj
    rw [hshort, hlong]
    refine ⟨(hbounds.after hj ha).size.trans (Nat.max_eq_left hn), fun ho => ?_, fun _ => ?_⟩
    · exact run_of_runFrom hk (hbounds.runFrom_lengthen (m - n) hj hr ho)
    · -- as many rounds as the shorter tape allowed take the longer run to the failing instruction
      have hlast := hbounds.after_lengthen (m - n) hj ha
      rw [← Nat.zero_add count, ← hsteps] at hlast
      exact run_of_runFrom hk (runFrom_eq_iff.mpr (.inl ⟨rfl, hlast⟩))

/-- A program that reads, moves and dumps two cells runs on four cells as on two. A single cell is
too short for the move, and up to there the run on four cells has read the same. -/
theorem longer_tape_changes_nothing_two_cells :
    let program : Program :=
      ⟨#[.input, .right, .star, .digit 0, .caret, .digit 1, .increment]⟩
    let console := Console.ofInput [65]
    let long := fresh program 4 .zero console
    let single := (fresh program 1 .zero console).run 9 .live Controls.none
    long.run 9 .live Controls.none =
        ⟨.halted, ⟨program, ⟨#[1, 0, 0, 0], 0⟩, .zero, ⟨[], #[[65, 0]], none, none, 0⟩⟩, 4, []⟩ ∧
      single.outcome = .failed (.cursorOutOfBounds 1 0 .right) ∧
      long.run 1 .live Controls.none =
        ⟨.unfinished, ⟨program, ⟨#[65, 0, 0, 0], 0⟩, .zero, ⟨[], #[], none, none, 0⟩⟩, 1, []⟩ := by
  intro program console long single
  have htwo : (fresh program 2 .zero console).run 9 .live Controls.none =
      ⟨.halted, ⟨program, ⟨#[1, 0], 0⟩, .zero, ⟨[], #[[65, 0]], none, none, 0⟩⟩, 4, []⟩ := rfl
  have hone : (fresh program 1 .zero console).run 9 .live Controls.none =
      ⟨.failed (.cursorOutOfBounds 1 0 .right),
        ⟨program, ⟨#[65], 0⟩, .zero, ⟨[], #[], none, none, 0⟩⟩, 1, []⟩ := rfl
  obtain ⟨-, -, hfits, -⟩ := longer_tape_changes_nothing program .zero console
    (show 1 ≤ 2 by decide) (show 2 ≤ 4 by decide) 9 .live Controls.none
  obtain ⟨-, -, -, hshort⟩ := longer_tape_changes_nothing program .zero console
    (show 1 ≤ 1 by decide) (show 1 ≤ 4 by decide) 9 .live Controls.none
  rw [htwo] at hfits
  rw [hone] at hshort
  exact ⟨hfits id, congrArg Result.outcome hone, hshort trivial⟩

end Machine

end ScrewLang
