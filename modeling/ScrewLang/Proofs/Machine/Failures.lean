import ScrewLang.Proofs.Machine.Rehearsal

/-!
# Instructions that fail

With working devices an instruction fails in three ways only: a move would leave the tape, a symbol
has no meaning by itself, or a `*` begins no dump of cells on the tape. The fault names the place
and the symbol that the run has come to, and the instruction has done nothing: the machine is left
as the instructions before it have left it.
-/

namespace ScrewLang

namespace Machine

/-- A fault tells why the instruction that a state has come to cannot be executed. -/
def Fault.Explains (program : Program) (state : State) : Fault → Prop
  | .cursorOutOfBounds place cursor symbol =>
    place = state.place ∧ cursor = state.tape.cursor ∧ program.symbols[place]? = some symbol ∧
      (symbol = .left ∧ cursor = 0 ∨ symbol = .right ∧ state.tape.size ≤ cursor + 1)
  | .unknownSymbol place symbol =>
    place = state.place ∧ program.symbols[place]? = some symbol ∧
      (symbol = .caret ∨ ∃ value, symbol = .digit value)
  | .dump place cause =>
    place = state.place ∧ program.symbols[place]? = some .star ∧
      Dump.parse program.symbols place state.tape.size = .error cause
  | _ => False

/-- The ways in which a plan fails. -/
theorem plan_eq_error {image : Image} {tape : Tape} {place : Nat} {symbol : Symbol} {fault : Fault}
    (h : plan image tape place symbol = .error fault) :
    (fault = .cursorOutOfBounds place tape.cursor symbol ∧
        (symbol = .left ∧ tape.cursor = 0 ∨ symbol = .right ∧ tape.size ≤ tape.cursor + 1)) ∨
      (fault = .unmatchedBrace place ∧ ∃ side, symbol = .brace side) ∨
      (symbol = .star ∧ ∃ cause, fault = .dump place cause ∧
        Dump.parse image.symbols place tape.size = .error cause) ∨
      fault = .unknownSymbol place symbol ∧ (symbol = .caret ∨ ∃ value, symbol = .digit value) := by
  cases symbol with
  | right =>
    simp only [plan] at h
    split at h
    · cases h
    · next ht =>
      cases h
      exact .inl ⟨rfl, .inr ⟨rfl, Nat.le_of_not_lt ht⟩⟩
  | left =>
    simp only [plan] at h
    split at h
    · cases h
    · next ht =>
      cases h
      exact .inl ⟨rfl, .inl ⟨rfl, Nat.eq_zero_of_not_pos ht⟩⟩
  | brace side =>
    have hf : fault = .unmatchedBrace place := by
      cases side with
      | opening | closing =>
        simp only [plan] at h
        repeat' split at h
        all_goals cases h
        rfl
    exact .inr (.inl ⟨hf, side, rfl⟩)
  | star =>
    simp only [plan] at h
    split at h
    · cases h
    · next cause hc =>
      cases h
      exact .inr (.inr (.inl ⟨rfl, cause, rfl, hc⟩))
  | increment | decrement | output | input => cases h
  | caret =>
    cases h
    exact .inr (.inr (.inr ⟨rfl, .inl rfl⟩))
  | digit value =>
    cases h
    exact .inr (.inr (.inr ⟨rfl, .inr ⟨value, rfl⟩⟩))

/-- What an action does to a console leaves its devices working. -/
theorem Action.working_converse (action : Action) (tape : Tape) {console : Console}
    (h : console.Working) : (action.converse tape console).2.Working := by
  cases action with
  | read =>
    rw [converse, Console.read]
    split <;> exact h
  | emit | dump => exact h
  | move | increment | decrement | skip | enter | loop | leave => exact h

namespace State

variable {program : Program} {jumps : Jumps.Table} {eof : EofPolicy} {image : Image} {mode : Mode}
  {controls : Controls} {state final : State} {fault : Fault} {place : Nat}

theorem working_perform (image : Image) (mode : Mode) (symbol : Symbol) (action : Action)
    (h : state.console.Working) : (state.perform image mode symbol action).console.Working := by
  cases mode with
  | live => exact action.working_converse state.tape h
  | rehearsal => exact h

/-- Working devices work throughout a run. -/
theorem working_of_after {count : Nat} (ha : state.after image mode controls count = some final)
    (h : state.console.Working) : final.console.Working := by
  apply after_induction (motive := fun s => s.console.Working) ha h
  intro s t hs ht
  obtain ⟨symbol, action, -, -, -, rfl⟩ := round_eq_ok_iff.mp ht
  exact working_perform image mode symbol action hs

/-- A round fails with a fault that names a place when its plan fails, or when a device refuses. -/
theorem plan_or_refusal_of_round (h : state.round image mode controls = .error (.failed fault))
    (hp : fault.place? = some place) :
    (∃ symbol, image.symbols[state.place]? = some symbol ∧
      plan image state.tape state.place symbol = .error fault) ∨
    ∃ cause, fault = .device state.place cause ∧
      (state.closing? mode = some fault ∨
        ∃ action : Action, action.refusal? state.tape state.console = some cause) := by
  rcases round_eq_failed_iff.mp h with ⟨-, hc⟩ | ⟨symbol, hs, hr | ⟨-, hd⟩⟩
  · obtain ⟨cause, hf⟩ := eq_of_closing? hc
    exact .inr ⟨cause, hf, .inl hc⟩
  · obtain rfl | ⟨limit, rfl⟩ := Controls.eq_of_refusal? hr <;> cases hp
  · rcases decision_eq_error_iff.mp hd with hd | ⟨-, action, cause, -, hc, hf⟩
    · exact .inl ⟨symbol, hs, hd⟩
    · exact .inr ⟨cause, hf, .inr ⟨action, hc⟩⟩

/-- With working devices only a plan fails with a fault that names a place. -/
theorem plan_of_round (hw : state.console.Working)
    (h : state.round image mode controls = .error (.failed fault))
    (hp : fault.place? = some place) :
    ∃ symbol, image.symbols[state.place]? = some symbol ∧
      plan image state.tape state.place symbol = .error fault := by
  rcases plan_or_refusal_of_round h hp with h | ⟨cause, -, hc | ⟨action, hc⟩⟩
  · exact h
  · rw [closing?_eq_none mode hw.2] at hc
    cases hc
  · rw [action.refusal?_eq_none state.tape hw] at hc
    cases hc

/-- The fault with which a plan fails explains why. -/
theorem explains_of_plan {symbol : Symbol} (hj : program.jumps = .ok jumps)
    (hs : program.symbols[state.place]? = some symbol)
    (h : plan ⟨program.symbols, jumps, eof⟩ state.tape state.place symbol = .error fault) :
    fault.Explains program state := by
  rcases plan_eq_error h with ⟨rfl, hm⟩ | ⟨rfl, -⟩ | ⟨rfl, cause, rfl, hc⟩ | ⟨rfl, hm⟩
  · exact ⟨rfl, rfl, hs, hm⟩
  · exact absurd h (plan_ne_unmatchedBrace hj hs state.place)
  · exact ⟨rfl, hs, hc⟩
  · exact ⟨rfl, hs, hm⟩

end State

/-- An instruction that fails has no effect. Where a run of a program with a jump table fails with a
fault that names a place, the program has an instruction there, the run has come to it after the
instructions that it counts, and the fault explains why it cannot be executed. The machine is left
as those instructions have left it: just as by a run that is given no round for the last one. -/
theorem failing_instruction_has_no_effect {machine : Machine} {jumps : Jumps.Table}
    (hj : machine.program.jumps = .ok jumps) (hw : machine.console.Working) (fuel : Nat)
    (mode : Mode) (controls : Controls) {fault : Fault} {place : Nat}
    (ho : (machine.run fuel mode controls).outcome = .failed fault)
    (hp : fault.place? = some place) :
    let result := machine.run fuel mode controls
    place < machine.program.size ∧
      (∃ state, machine.Reaches mode controls result.steps state ∧ state.place = place ∧
        fault.Explains machine.program state ∧ result.machine = machine.resumed state) ∧
      machine.run result.steps mode controls =
        ⟨.unfinished, result.machine, result.steps, result.lines⟩ := by
  intro result
  obtain ⟨count, state, hc, ha, he⟩ := (outcome_run_eq_iff hj (by simp)).mp ho
  have hsteps : state.steps = 0 + count := State.steps_of_after ha
  have hresult : result =
      ⟨.failed fault, machine.resumed state, state.steps, listing mode state.rows⟩ :=
    run_of_runFrom hj (runFrom_of_after ha he hc)
  rw [Nat.zero_add] at hsteps
  rw [← hsteps] at ha
  -- the last round has failed by its plan, so nothing of it was carried out
  obtain ⟨symbol, hs, hplan⟩ := State.plan_of_round (State.working_of_after ha hw) he hp
  have hplace : state.place = place := Option.some.inj ((place?_of_plan hplan).symm.trans hp)
  rw [hresult]
  refine ⟨?_, ⟨state, ⟨jumps, hj, ha⟩, hplace, ?_, rfl⟩, ?_⟩
  · rw [← hplace]
    exact (Array.getElem?_eq_some_iff.mp hs).1
  · exact State.explains_of_plan hj hs hplan
  · exact run_of_runFrom hj (runFrom_eq_iff.mpr (.inl ⟨rfl, ha⟩))

/-- A dump with its bounds in the wrong order, in the second round of a loop that reads and prints,
leaves what was read, printed and stored before it. -/
theorem failing_instruction_has_no_effect_inverted_dump :
    let program : Program := ⟨#[.increment, .brace .opening, .input, .output, .brace .closing,
      .right, .star, .digit 1, .caret, .digit 0]⟩
    let machine : Machine := fresh program 2 .minusOne (Console.ofInput [5, 0, 9])
    let result := machine.run 99 .live Controls.none
    result.outcome = .failed (.dump 6 (.inverted 1 0)) ∧ machine.console.Working ∧
      6 < program.size ∧
      (∃ state, machine.Reaches .live Controls.none result.steps state ∧ state.place = 6 ∧
        result.machine = machine.resumed state) ∧
      result.machine = ⟨program, ⟨#[0, 0], 1⟩, .minusOne, ⟨[9], #[[5], [0]], none, none, 0⟩⟩ := by
  intro program machine result
  have hj : machine.program.jumps =
      .ok #[none, some 4, none, none, some 1, none, none, none, none, none] := rfl
  have ho : result.outcome = .failed (.dump 6 (.inverted 1 0)) := rfl
  obtain ⟨hplace, ⟨state, hr, hs, -, hm⟩, -⟩ :=
    failing_instruction_has_no_effect hj ⟨rfl, rfl⟩ 99 .live Controls.none ho rfl
  exact ⟨ho, ⟨rfl, rfl⟩, hplace, ⟨state, hr, hs, hm⟩, rfl⟩

end Machine

end ScrewLang
