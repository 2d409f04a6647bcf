import ScrewLang.Proofs.Machine.Session

/-!
# Runs cut short

Controls are asked before every instruction and after the end of the program has been looked for. So
a run with a limit carries out the instructions of the run without one, up to the limit, and is cut
short exactly when another instruction would follow; a canceled run carries out none.
-/

namespace ScrewLang

namespace Machine

/-- A fault that names no instruction of the program, but the end of it. -/
def Fault.AtEnd (program : Program) (fault : Fault) : Prop :=
  ∃ place, fault.place? = some place ∧ program.size ≤ place

/-- A run ended by itself within a limit: it halted after at most so many instructions, or failed on
the next one after fewer. A flush that fails at the end of the program comes where halting would. -/
def Result.InTime (limit : Nat) (result : Result) : Prop :=
  match result.outcome with
  | .halted => result.steps ≤ limit
  | .failed fault =>
    result.steps < limit ∨ result.steps = limit ∧ fault.AtEnd result.machine.program
  | .unfinished => False

namespace Controls

variable {limit steps : Nat}

/-- A limit lets no instruction pass that comes after so many. -/
theorem lt_of_refusal? {canceled : Bool}
    (h : (⟨some limit, canceled⟩ : Controls).refusal? steps = .none) : steps < limit := by
  cases canceled with
  | true => cases h
  | false =>
    simp only [refusal?, Bool.false_eq_true, ↓reduceIte] at h
    split at h
    · cases h
    · omega

/-- A limit lets every instruction pass that comes after fewer. -/
theorem refusal?_eq_none {larger : Option Nat} (hl : ∀ bound, larger = some bound → limit ≤ bound)
    (h : steps < limit) : (⟨larger, false⟩ : Controls).refusal? steps = .none := by
  cases larger with
  | none => rfl
  | some bound =>
    have := hl bound rfl
    simp only [refusal?, Bool.false_eq_true, ↓reduceIte, ite_eq_right_iff, reduceCtorEq, imp_false]
    omega

/-- Once the limit is reached, the next instruction is refused. -/
theorem refusal?_of_le (h : limit ≤ steps) :
    (⟨some limit, false⟩ : Controls).refusal? steps = some (.stepLimit limit) := by
  simp [refusal?, h]

end Controls

/-- A plan that fails names the instruction it was made for. -/
theorem place?_of_plan {image : Image} {tape : Tape} {place : Nat} {symbol : Symbol} {fault : Fault}
    (h : plan image tape place symbol = .error fault) : fault.place? = some place := by
  cases symbol with
  | right | left =>
    simp only [plan] at h
    split at h
    · cases h
    · cases h
      rfl
  | brace side =>
    cases side with
    | opening | closing =>
      simp only [plan] at h
      repeat' split at h
      all_goals cases h
      all_goals rfl
  | star =>
    simp only [plan] at h
    split at h
    · cases h
    · cases h
      rfl
  | increment | decrement | output | input => cases h
  | caret | digit =>
    cases h
    rfl

namespace State

variable {image : Image} {mode : Mode} {controls other : Controls} {state next final : State}

/-- A decision that fails names the instruction it was made for. -/
theorem place?_of_decision {symbol : Symbol} {fault : Fault}
    (h : state.decision image mode symbol = .error fault) : fault.place? = some state.place := by
  rcases decision_eq_error_iff.mp h with hp | ⟨-, action, cause, -, -, rfl⟩
  · exact place?_of_plan hp
  · rfl

/-- A run that is not cut short fails with a fault that names the place it has come to. -/
theorem place?_of_round {fault : Fault}
    (h : state.round image mode Controls.none = .error (.failed fault)) :
    fault.place? = some state.place := by
  rcases round_eq_failed_iff.mp h with ⟨-, hc⟩ | ⟨symbol, -, hr | ⟨-, hd⟩⟩
  · obtain ⟨cause, rfl⟩ := eq_of_closing? hc
    rfl
  · cases hr
  · exact place?_of_decision hd

/-- A round is ended by the limit exactly when an instruction follows after so many. -/
theorem round_eq_stepLimit_iff {limit : Nat} :
    state.round image mode ⟨some limit, false⟩ = .error (.failed (.stepLimit limit)) ↔
      image.symbols[state.place]? ≠ none ∧ limit ≤ state.steps := by
  rw [round_eq_failed_iff, Option.ne_none_iff_exists']
  constructor
  · rintro (⟨-, hc⟩ | ⟨symbol, hs, hr | ⟨-, hd⟩⟩)
    · obtain ⟨cause, hf⟩ := eq_of_closing? hc
      cases hf
    · refine ⟨⟨symbol, hs⟩, Nat.le_of_not_lt fun hlt => ?_⟩
      rw [Controls.refusal?_eq_none (by simp) hlt] at hr
      cases hr
    · cases place?_of_decision hd
  · rintro ⟨⟨symbol, hs⟩, hle⟩
    exact .inr ⟨symbol, hs, .inl (Controls.refusal?_of_le hle)⟩

/-- Controls matter to a round only through what they refuse. -/
theorem round_congr (h : controls.refusal? state.steps = other.refusal? state.steps) :
    state.round image mode controls = state.round image mode other := by
  unfold round
  rw [h]

/-- At the end of the program controls do not matter. -/
theorem round_congr_of_end (h : image.symbols[state.place]? = none) :
    state.round image mode controls = state.round image mode other := by
  unfold round
  rw [h]

/-- An instruction is counted. -/
theorem steps_perform (image : Image) (mode : Mode) (state : State) (symbol : Symbol)
    (action : Action) :
    (state.perform image mode symbol action).steps = state.steps + 1 := by
  cases mode <;> rfl

theorem steps_of_round (h : state.round image mode controls = .ok next) :
    next.steps = state.steps + 1 := by
  obtain ⟨symbol, action, -, -, -, rfl⟩ := round_eq_ok_iff.mp h
  exact steps_perform image mode state symbol action

/-- Every instruction is counted. -/
theorem steps_of_after {count : Nat} (h : state.after image mode controls count = some final) :
    final.steps = state.steps + count := by
  induction count generalizing state with
  | zero =>
    rw [after_zero] at h
    cases h
    rfl
  | succ count ih =>
    cases hr : state.round image mode controls with
    | error outcome =>
      rw [after_succ_of_end count hr] at h
      cases h
    | ok next =>
      rw [after_succ_of_round count hr] at h
      rw [ih h, steps_of_round hr]
      omega

/-- Controls that refuse the same before some number of instructions let the same ones pass. -/
theorem after_congr {bound count : Nat}
    (h : ∀ steps < bound, controls.refusal? steps = other.refusal? steps)
    (hc : state.steps + count ≤ bound) :
    state.after image mode controls count = state.after image mode other count := by
  induction count generalizing state with
  | zero => rfl
  | succ count ih =>
    have hround : state.round image mode controls = state.round image mode other :=
      round_congr (h state.steps (by omega))
    cases hr : state.round image mode controls with
    | error outcome =>
      rw [after_succ_of_end count hr, after_succ_of_end count (hround.symm.trans hr)]
    | ok next =>
      have hs := steps_of_round hr
      rw [after_succ_of_round count hr, after_succ_of_round count (hround.symm.trans hr)]
      exact ih (by omega)

/-- A run with a limit carries out no more instructions than that. -/
theorem steps_le_of_after {limit count : Nat} {canceled : Bool}
    (h : state.after image mode ⟨some limit, canceled⟩ count = some final)
    (hs : state.steps ≤ limit) : final.steps ≤ limit := by
  refine after_induction (motive := fun s => s.steps ≤ limit) h hs ?_
  intro s t _ ht
  obtain ⟨symbol, action, -, hr, -, -⟩ := round_eq_ok_iff.mp ht
  have := Controls.lt_of_refusal? hr
  rw [steps_of_round ht]
  omega

/-- A round that the limit does not end is the same under any larger limit and under none. -/
theorem round_of_larger {limit : Nat} {larger : Option Nat}
    (hl : ∀ bound, larger = some bound → limit ≤ bound)
    (h : state.round image mode ⟨some limit, false⟩ ≠ .error (.failed (.stepLimit limit))) :
    state.round image mode ⟨larger, false⟩ = state.round image mode ⟨some limit, false⟩ := by
  by_cases hs : image.symbols[state.place]? = none
  · exact round_congr_of_end hs
  · have hlt : state.steps < limit := by
      apply Nat.lt_of_not_le
      intro hle
      exact h (round_eq_stepLimit_iff.mpr ⟨hs, hle⟩)
    apply round_congr
    rw [Controls.refusal?_eq_none hl hlt, Controls.refusal?_eq_none (by simp) hlt]

end State

section

variable {image : Image} {mode : Mode} {state final : State} {limit : Nat}

/-- A run that the limit does not end is the same under any larger limit and under none. -/
theorem runFrom_of_larger {larger : Option Nat}
    (hl : ∀ bound, larger = some bound → limit ≤ bound) {fuel : Nat}
    (h : (runFrom image mode ⟨some limit, false⟩ fuel state).1 ≠ .failed (.stepLimit limit)) :
    runFrom image mode ⟨larger, false⟩ fuel state =
      runFrom image mode ⟨some limit, false⟩ fuel state := by
  induction fuel generalizing state with
  | zero => rfl
  | succ fuel ih =>
    cases hr : state.round image mode ⟨some limit, false⟩ with
    | error outcome =>
      rw [runFrom_succ_end fuel hr] at h ⊢
      have hne : state.round image mode ⟨some limit, false⟩ ≠
          .error (.failed (.stepLimit limit)) := by
        intro he
        rw [hr] at he
        exact h (Except.error.inj he)
      exact runFrom_succ_end fuel ((State.round_of_larger hl hne).trans hr)
    | ok next =>
      rw [runFrom_succ_ok fuel hr] at h ⊢
      have hne : state.round image mode ⟨some limit, false⟩ ≠
          .error (.failed (.stepLimit limit)) := by
        rw [hr]
        simp
      rw [runFrom_succ_ok fuel ((State.round_of_larger hl hne).trans hr)]
      exact ih h

/-- A run is ended by the limit exactly where the run without one carries out so many instructions
and another one follows. -/
theorem runFrom_eq_stepLimit_iff {fuel : Nat} (hs : state.steps = 0) :
    runFrom image mode ⟨some limit, false⟩ fuel state = (.failed (.stepLimit limit), final) ↔
      limit < fuel ∧ state.after image mode Controls.none limit = some final ∧
        image.symbols[final.place]? ≠ none := by
  have hagree : state.after image mode ⟨some limit, false⟩ limit =
      state.after image mode Controls.none limit := by
    refine State.after_congr (fun steps (hlt : steps < limit) => ?_) (by omega)
    rw [Controls.refusal?_eq_none (by simp) hlt]
    rfl
  rw [← hagree, runFrom_eq_iff]
  constructor
  · rintro (⟨ho, -⟩ | ⟨count, hc, ha, he⟩)
    · cases ho
    · obtain ⟨hsym, hle⟩ := State.round_eq_stepLimit_iff.mp he
      have hge := State.steps_le_of_after ha (by omega)
      have hsteps := State.steps_of_after ha
      obtain rfl : count = limit := by omega
      exact ⟨hc, ha, hsym⟩
  · rintro ⟨hf, ha, hsym⟩
    have hsteps := State.steps_of_after ha
    exact .inr ⟨limit, hf, ha, State.round_eq_stepLimit_iff.mpr ⟨hsym, by omega⟩⟩

/-- A run with a limit comes to an end. -/
theorem runFrom_ne_unfinished {canceled : Bool} {fuel : Nat} (hs : state.steps = 0)
    (hf : limit < fuel) :
    (runFrom image mode ⟨some limit, canceled⟩ fuel state).1 ≠ .unfinished := by
  intro hu
  rcases runFrom_eq_iff.mp (Prod.ext hu rfl) with ⟨-, ha⟩ | ⟨count, -, -, he⟩
  · have hle := State.steps_le_of_after ha (by omega)
    have hsteps := State.steps_of_after ha
    omega
  · exact State.round_ne_unfinished he

end

variable {machine : Machine} {jumps : Jumps.Table} {mode : Mode} {limit : Nat}

/-- A run that has ended is in time exactly when it ended before the limit, or at the limit and at
the end of the program. -/
private theorem inTime_iff {outcome : Outcome} {final : State} {lines : List String}
    (he : final.round (machine.ready jumps) mode Controls.none = .error outcome) :
    (⟨outcome, machine.resumed final, final.steps, lines⟩ : Result).InTime limit ↔
      final.steps < limit ∨ final.steps = limit ∧ machine.program.symbols[final.place]? = none := by
  cases outcome with
  | halted =>
    have hs : machine.program.symbols[final.place]? = none := (State.round_eq_halted_iff.mp he).1
    simp only [Result.InTime, hs, and_true]
    omega
  | failed fault =>
    have hend : fault.AtEnd machine.program ↔ machine.program.symbols[final.place]? = none := by
      simp [Fault.AtEnd, State.place?_of_round he, Program.size]
    simp only [Result.InTime, resumed, hend]
  | unfinished => exact absurd he State.round_ne_unfinished

/-- With a working output the end of the program does not fail, and a run is in time just when it
halts after at most so many instructions or fails after fewer. -/
theorem inTime_run_iff (hj : machine.program.jumps = .ok jumps)
    (ho : machine.console.outputFault = none) (fuel : Nat) :
    (machine.run fuel mode Controls.none).InTime limit ↔
      (machine.run fuel mode Controls.none).outcome = .halted ∧
          (machine.run fuel mode Controls.none).steps ≤ limit ∨
        (∃ fault, (machine.run fuel mode Controls.none).outcome = .failed fault) ∧
          (machine.run fuel mode Controls.none).steps < limit := by
  cases hrun : runFrom (machine.ready jumps) mode Controls.none fuel machine.start with
  | mk outcome final =>
  rw [run_of_runFrom hj hrun]
  rcases runFrom_eq_iff.mp hrun with ⟨rfl, -⟩ | ⟨count, -, ha, he⟩
  · simp [Result.InTime]
  · cases outcome with
    | halted => simp [Result.InTime]
    | unfinished => exact absurd he State.round_ne_unfinished
    | failed fault =>
      have hclosing : final.closing? mode = none :=
        State.closing?_eq_none mode ((State.outputFault_of_after ha).trans ho)
      have hs : machine.program.symbols[final.place]? ≠ none := by
        intro hs
        rcases State.round_eq_failed_iff.mp he with ⟨-, hc⟩ | ⟨symbol, hs', -⟩
        · rw [hclosing] at hc
          cases hc
        · exact absurd (hs.symm.trans hs') (by simp)
      simp [inTime_iff he, hs]

/-- A run that does not end by itself within a limit carries out so many instructions, and another
one follows. -/
theorem exists_after_of_not_inTime (hj : machine.program.jumps = .ok jumps)
    (h : ¬(machine.run (limit + 1) mode Controls.none).InTime limit) :
    ∃ state, machine.start.after (machine.ready jumps) mode Controls.none limit = some state ∧
      machine.program.symbols[state.place]? ≠ none := by
  cases hrun : runFrom (machine.ready jumps) mode Controls.none (limit + 1) machine.start with
  | mk outcome final =>
  rcases runFrom_eq_iff.mp hrun with ⟨-, ha⟩ | ⟨count, hc, ha, he⟩
  · obtain ⟨middle, hm, hr⟩ := State.exists_round_of_after_succ ha
    obtain ⟨symbol, -, hs, -, -, -⟩ := State.round_eq_ok_iff.mp hr
    refine ⟨middle, hm, ?_⟩
    rw [show machine.program.symbols[middle.place]? = some symbol from hs]
    simp
  · rw [run_of_runFrom hj hrun, inTime_iff he, not_or, not_and] at h
    have hsteps : final.steps = 0 + count := State.steps_of_after ha
    obtain rfl : count = limit := by omega
    exact ⟨final, ha, h.2 (by omega)⟩

/-- A run that ends by itself within a limit is not ended by it. -/
theorem Result.InTime.not_stepLimit {fuel : Nat} (hj : machine.program.jumps = .ok jumps)
    (h : (machine.run fuel mode Controls.none).InTime limit) :
    (machine.run fuel mode ⟨some limit, false⟩).outcome ≠ .failed (.stepLimit limit) := by
  rw [run_of_jumps fuel mode _ hj]
  intro ho
  obtain ⟨-, hl, hs⟩ := (runFrom_eq_stepLimit_iff rfl).mp (Prod.ext ho rfl)
  cases hrun : runFrom (machine.ready jumps) mode Controls.none fuel machine.start with
  | mk outcome final =>
  rw [run_of_runFrom hj hrun] at h
  rcases runFrom_eq_iff.mp hrun with ⟨rfl, -⟩ | ⟨count, -, ha, he⟩
  · exact h
  · rw [inTime_iff he] at h
    have hsteps : final.steps = 0 + count := State.steps_of_after ha
    -- Nothing follows the end of the run, so the state at the limit is the one it ends in.
    obtain ⟨rest, rfl, hr⟩ := State.rest_of_after hl ha he
    obtain rfl : rest = 0 := by omega
    cases hr
    rcases h with h | ⟨-, h⟩
    · omega
    · exact hs h

/-- A canceled run carries out no instruction. -/
theorem run_of_canceled {fuel : Nat} (hj : machine.program.jumps = .ok jumps) (limit? : Option Nat)
    (hf : 0 < fuel) (hs : machine.program.size ≠ 0) :
    machine.run fuel mode ⟨limit?, true⟩ = ⟨.failed .canceled, machine, 0, listing mode #[]⟩ := by
  have hlt : 0 < machine.program.symbols.size := Nat.pos_of_ne_zero hs
  have hround : machine.start.round (machine.ready jumps) mode ⟨limit?, true⟩ =
      .error (.failed .canceled) :=
    State.round_eq_failed_iff.mpr (.inr ⟨_, Array.getElem?_eq_getElem hlt, .inl rfl⟩)
  exact run_of_runFrom hj (runFrom_of_after State.after_zero hround hf)

/-- Controls do not matter to a program without instructions. -/
theorem run_of_size_eq_zero {fuel : Nat} (hj : machine.program.jumps = .ok jumps)
    (controls : Controls) (hf : 0 < fuel) (hs : machine.program.size = 0) :
    machine.run fuel mode controls = machine.run fuel mode Controls.none ∧
      (machine.start.closing? mode = none →
        machine.run fuel mode Controls.none = ⟨.halted, machine, 0, listing mode #[]⟩) := by
  have hsym : (machine.ready jumps).symbols[machine.start.place]? = none :=
    Array.getElem?_eq_none (Nat.le_of_eq hs)
  constructor
  · have hsame : machine.start.round (machine.ready jumps) mode controls =
        machine.start.round (machine.ready jumps) mode Controls.none :=
      State.round_congr_of_end hsym
    cases hround : machine.start.round (machine.ready jumps) mode Controls.none with
    | ok next =>
      obtain ⟨symbol, -, hs, -⟩ := State.round_eq_ok_iff.mp hround
      rw [hsym] at hs
      cases hs
    | error outcome =>
      rw [run_of_runFrom hj (runFrom_of_after State.after_zero (hsame.trans hround) hf),
        run_of_runFrom hj (runFrom_of_after State.after_zero hround hf)]
  · intro hc
    have hround : machine.start.round (machine.ready jumps) mode Controls.none = .error .halted :=
      State.round_eq_halted_iff.mpr ⟨hsym, hc⟩
    exact run_of_runFrom hj (runFrom_of_after State.after_zero hround hf)

/-- A controlled run of a program with a jump table is a part of the run without controls. A run that
ends by itself within the limit is not changed by it: with a working output, one that halts after at
most so many instructions or fails after fewer. Any other is cut short in the very state that the
run without controls has after so many instructions. A canceled run stops where it begins, unless
the program has no instructions: then it ends as without controls. So every run with a limit ends,
and one that the limit does not end is the same under any larger limit and under none. -/
theorem controlled_run_is_prefix {machine : Machine} {jumps : Jumps.Table}
    (hj : machine.program.jumps = .ok jumps) (mode : Mode) (limit : Nat) :
    let free fuel := machine.run fuel mode Controls.none
    let limited fuel := machine.run fuel mode ⟨some limit, false⟩
    (machine.console.outputFault = none → ∀ fuel, (free fuel).InTime limit ↔
      (free fuel).outcome = .halted ∧ (free fuel).steps ≤ limit ∨
        (∃ fault, (free fuel).outcome = .failed fault) ∧ (free fuel).steps < limit) ∧
    (∀ fuel, (free fuel).InTime limit → limited fuel = free fuel) ∧
    ((∀ fuel, ¬(free fuel).InTime limit) →
      ∃ state, machine.Reaches mode Controls.none limit state ∧
        ∀ fuel, limit < fuel → limited fuel =
          ⟨.failed (.stepLimit limit), machine.resumed state, limit, listing mode state.rows⟩) ∧
    (∀ limit? fuel, 0 < fuel →
      (machine.program.size ≠ 0 →
        machine.run fuel mode ⟨limit?, true⟩ = ⟨.failed .canceled, machine, 0, listing mode #[]⟩) ∧
      (machine.program.size = 0 →
        machine.run fuel mode ⟨limit?, true⟩ = free fuel ∧
          (machine.console.outputFault = none →
            free fuel = ⟨.halted, machine, 0, listing mode #[]⟩))) ∧
    (∀ canceled fuel, limit < fuel →
      (machine.run fuel mode ⟨some limit, canceled⟩).outcome ≠ .unfinished) ∧
    ∀ fuel, (limited fuel).outcome ≠ .failed (.stepLimit limit) →
      ∀ larger, (∀ bound, larger = some bound → limit ≤ bound) →
        machine.run fuel mode ⟨larger, false⟩ = limited fuel := by
  intro free limited
  have hlarger : ∀ fuel, (limited fuel).outcome ≠ .failed (.stepLimit limit) →
      ∀ larger, (∀ bound, larger = some bound → limit ≤ bound) →
        machine.run fuel mode ⟨larger, false⟩ = limited fuel := by
    intro fuel ho larger hl
    simp only [limited, run_of_jumps fuel mode _ hj] at ho ⊢
    rw [runFrom_of_larger hl ho]
  refine ⟨fun ho fuel => inTime_run_iff hj ho fuel, ?_, ?_, ?_, ?_, hlarger⟩
  · intro fuel hin
    exact (hlarger fuel (hin.not_stepLimit hj) none (by simp)).symm
  · intro hout
    obtain ⟨state, ha, hs⟩ := exists_after_of_not_inTime hj (hout (limit + 1))
    have hsteps : state.steps = 0 + limit := State.steps_of_after ha
    refine ⟨state, ⟨jumps, hj, ha⟩, fun fuel hf => ?_⟩
    have hrun := run_of_runFrom hj ((runFrom_eq_stepLimit_iff rfl).mpr ⟨hf, ha, hs⟩)
    rwa [hsteps, Nat.zero_add] at hrun
  · intro limit? fuel hf
    refine ⟨run_of_canceled hj limit? hf, fun hs => ?_⟩
    obtain ⟨hsame, hhalted⟩ := run_of_size_eq_zero hj ⟨limit?, true⟩ hf hs
    exact ⟨hsame, fun ho => hhalted (State.closing?_eq_none mode ho)⟩
  · intro canceled fuel hf
    rw [run_of_jumps fuel mode _ hj]
    exact runFrom_ne_unfinished rfl hf

/-- Three increments are done within three instructions; a limit of two stops them after the second,
and a cancellation before the first. -/
theorem controlled_run_is_prefix_increments :
    let machine := fresh ⟨#[.increment, .increment, .increment]⟩ 1 .zero (Console.ofInput [])
    let cut : State := ⟨⟨#[2], 0⟩, 2, 2, Console.ofInput [], #[]⟩
    (machine.run 4 .live Controls.none).InTime 3 ∧
      machine.run 4 .live ⟨some 3, false⟩ = machine.run 4 .live Controls.none ∧
      (∀ fuel, ¬(machine.run fuel .live Controls.none).InTime 2) ∧
      machine.run 3 .live ⟨some 2, false⟩ =
        ⟨.failed (.stepLimit 2), machine.resumed cut, 2, []⟩ ∧
      machine.run 1 .live ⟨some 2, true⟩ = ⟨.failed .canceled, machine, 0, []⟩ ∧
      machine.run 4 .live ⟨some 7, false⟩ = machine.run 4 .live ⟨some 3, false⟩ := by
  intro machine cut
  have hj : machine.program.jumps = .ok #[none, none, none] := rfl
  have hin : (machine.run 4 .live Controls.none).InTime 3 := by
    show (3 : Nat) ≤ 3
    decide
  have hout : ∀ fuel, ¬(machine.run fuel .live Controls.none).InTime 2 := by
    intro fuel
    match fuel with
    | 0 | 1 | 2 | 3 => exact id
    | rest + 4 =>
      show ¬(3 : Nat) ≤ 2
      decide
  obtain ⟨-, hsame, -, -, -, hlarger⟩ := controlled_run_is_prefix hj .live 3
  obtain ⟨-, -, hcut, hcanceled, -, -⟩ := controlled_run_is_prefix hj .live 2
  obtain ⟨state, ⟨jumps, hk, ha⟩, hrun⟩ := hcut hout
  have hstate : state = cut := by
    rw [hj] at hk
    cases hk
    exact (Option.some.inj ha).symm
  subst hstate
  refine ⟨hin, hsame 4 hin, hout, hrun 3 (by decide),
    (hcanceled (some 2) 1 (by decide)).1 (by decide), hlarger 4 ?_ (some 7) ?_⟩
  · rw [hsame 4 hin]
    decide
  · intro bound hb
    cases hb
    decide

end Machine

end ScrewLang
