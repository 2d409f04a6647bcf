import ScrewLang.Machine.Run

/-!
# Runs, round by round

`State.round` is one round of a run: it gives the state after the next instruction, or says how the
run ends here. `State.after` is the state after a given number of instructions. A run with fuel is
exactly this: unfinished in the state that its fuel has taken it to, or ended in the first state in
which a round ends it.
-/

namespace ScrewLang

namespace Machine

/-- From outside, a run is cut short only by a cancellation or a limit. -/
theorem Controls.eq_of_refusal? {controls : Controls} {steps : Nat} {fault : Fault}
    (h : controls.refusal? steps = some fault) :
    fault = .canceled ∨ ∃ limit, fault = .stepLimit limit := by
  unfold refusal? at h
  split at h
  · exact .inl (Option.some.inj h).symm
  · split at h
    · split at h
      · exact .inr ⟨_, (Option.some.inj h).symm⟩
      · cases h
    · cases h

namespace State

/-- At the end of a program only a device can fail. -/
theorem eq_of_closing? {mode : Mode} {state : State} {fault : Fault}
    (h : state.closing? mode = some fault) : ∃ cause, fault = .device state.place cause := by
  cases mode with
  | rehearsal => cases h
  | live =>
    obtain ⟨cause, -, hc⟩ := Option.map_eq_some_iff.mp h
    exact ⟨cause, hc.symm⟩

/-- A working output is always flushed. -/
theorem closing?_eq_none (mode : Mode) {state : State} (h : state.console.outputFault = none) :
    state.closing? mode = none := by
  cases mode with
  | rehearsal => rfl
  | live => simp [closing?, Console.flushRefusal?, h]

/-- One round of a run: the state after the next instruction, or how the run ends here. -/
def round (image : Image) (mode : Mode) (controls : Controls) (state : State) :
    Except Outcome State :=
  match image.symbols[state.place]? with
  | none =>
    match state.closing? mode with
    | some fault => .error (.failed fault)
    | none => .error .halted
  | some symbol =>
    match controls.refusal? state.steps with
    | some fault => .error (.failed fault)
    | none =>
      match state.decision image mode symbol with
      | .error fault => .error (.failed fault)
      | .ok action => .ok (state.perform image mode symbol action)

/-- The state after exactly `count` instructions, if the run gets so far. -/
def after (image : Image) (mode : Mode) (controls : Controls) :
    (count : Nat) → State → Option State
  | 0, state => some state
  | count + 1, state =>
    match state.round image mode controls with
    | .error _ => none
    | .ok next => after image mode controls count next

variable {image : Image} {mode : Mode} {controls : Controls} {state next : State}

/-- A round goes on exactly when the symbol here is neither refused from outside nor fails, and then
carries its action out. -/
theorem round_eq_ok_iff :
    state.round image mode controls = .ok next ↔
      ∃ symbol action, image.symbols[state.place]? = some symbol ∧
        controls.refusal? state.steps = none ∧ state.decision image mode symbol = .ok action ∧
        next = state.perform image mode symbol action := by
  unfold round
  cases hs : image.symbols[state.place]? with
  | none => cases hc : state.closing? mode <;> simp
  | some symbol =>
    cases hr : controls.refusal? state.steps with
    | some fault => simp
    | none =>
      cases hd : state.decision image mode symbol with
      | error fault => simp [hd]
      | ok action => simp [hd, eq_comm]

/-- A round halts the run exactly at the end of the program, once nothing is left to flush. -/
theorem round_eq_halted_iff :
    state.round image mode controls = .error .halted ↔
      image.symbols[state.place]? = none ∧ state.closing? mode = none := by
  unfold round
  cases hs : image.symbols[state.place]? with
  | none => cases hc : state.closing? mode <;> simp
  | some symbol =>
    cases hr : controls.refusal? state.steps with
    | some fault => simp
    | none => cases hd : state.decision image mode symbol <;> simp [hd]

/-- A round fails at the end of the program, from outside, or by a decision. -/
theorem round_eq_failed_iff {fault : Fault} :
    state.round image mode controls = .error (.failed fault) ↔
      (image.symbols[state.place]? = none ∧ state.closing? mode = some fault) ∨
      ∃ symbol, image.symbols[state.place]? = some symbol ∧
        (controls.refusal? state.steps = some fault ∨
          controls.refusal? state.steps = none ∧
            state.decision image mode symbol = .error fault) := by
  unfold round
  cases hs : image.symbols[state.place]? with
  | none => cases hc : state.closing? mode <;> simp
  | some symbol =>
    cases hr : controls.refusal? state.steps with
    | some other => simp
    | none => cases hd : state.decision image mode symbol <;> simp [hd]

/-- A round never leaves the run unfinished. -/
theorem round_ne_unfinished : state.round image mode controls ≠ .error .unfinished := by
  unfold round
  cases hs : image.symbols[state.place]? with
  | none => cases hc : state.closing? mode <;> simp
  | some symbol =>
    cases hr : controls.refusal? state.steps with
    | some other => simp
    | none => cases hd : state.decision image mode symbol <;> simp [hd]

/-- An instruction moves the run to where its action goes on. -/
theorem place_perform (image : Image) (mode : Mode) (state : State) (symbol : Symbol)
    (action : Action) :
    (state.perform image mode symbol action).place = action.next state.place := by
  cases mode <;> rfl

/-- An instruction does to the tape what its action does, with the byte that was read, if one was.
-/
theorem tape_perform (image : Image) (mode : Mode) (state : State) (symbol : Symbol)
    (action : Action) : ∃ byte?, (state.perform image mode symbol action).tape =
      action.apply image.eof byte? state.tape := by
  cases mode with
  | live => exact ⟨(action.converse state.tape state.console).1, rfl⟩
  | rehearsal => exact ⟨none, rfl⟩

/-- An instruction repairs and breaks no output. -/
theorem outputFault_perform (image : Image) (mode : Mode) (state : State) (symbol : Symbol)
    (action : Action) :
    (state.perform image mode symbol action).console.outputFault = state.console.outputFault := by
  cases mode with
  | rehearsal => rfl
  | live =>
    cases action with
    | read =>
      show (state.console.read).2.outputFault = _
      rw [Console.read]
      split <;> rfl
    | move | increment | decrement | emit | skip | enter | loop | leave | dump => rfl

/-- An action is decided on when it is planned and, in earnest, not refused by the console. -/
theorem decision_eq_ok_iff {symbol : Symbol} {action : Action} :
    state.decision image mode symbol = .ok action ↔
      plan image state.tape state.place symbol = .ok action ∧
        (mode = .live → action.refusal? state.tape state.console = none) := by
  unfold decision
  cases hp : plan image state.tape state.place symbol with
  | error fault => simp
  | ok planned =>
    cases mode with
    | rehearsal => simp
    | live =>
      cases hr : planned.refusal? state.tape state.console with
      | none =>
        simp only [hr, Except.ok.injEq, true_implies]
        constructor
        · rintro rfl
          exact ⟨rfl, hr⟩
        · exact fun h => h.1
      | some cause =>
        simp only [hr, reduceCtorEq, false_iff, not_and, true_implies]
        intro he
        cases he
        simp [hr]

/-- A decision fails as its plan does, or by a refusal of the console. -/
theorem decision_eq_error_iff {symbol : Symbol} {fault : Fault} :
    state.decision image mode symbol = .error fault ↔
      plan image state.tape state.place symbol = .error fault ∨
        mode = .live ∧ ∃ action cause, plan image state.tape state.place symbol = .ok action ∧
          action.refusal? state.tape state.console = some cause ∧
          fault = .device state.place cause := by
  unfold decision
  cases hp : plan image state.tape state.place symbol with
  | error planned => simp
  | ok planned =>
    cases mode with
    | rehearsal => simp
    | live => cases hr : planned.refusal? state.tape state.console <;> simp [hr, eq_comm]

theorem after_zero : state.after image mode controls 0 = some state := rfl

/-- The first of several instructions. -/
theorem after_succ_of_round (count : Nat) (h : state.round image mode controls = .ok next) :
    state.after image mode controls (count + 1) = next.after image mode controls count := by
  simp only [after, h]

theorem after_one (h : state.round image mode controls = .ok next) :
    state.after image mode controls 1 = some next := by
  rw [after_succ_of_round 0 h, after_zero]

/-- Nothing follows the end of a run. -/
theorem after_succ_of_end {outcome : Outcome} (count : Nat)
    (h : state.round image mode controls = .error outcome) :
    state.after image mode controls (count + 1) = none := by
  simp only [after, h]

/-- The last of several instructions. -/
theorem exists_round_of_after_succ {final : State} {count : Nat}
    (h : state.after image mode controls (count + 1) = some final) :
    ∃ middle, state.after image mode controls count = some middle ∧
      middle.round image mode controls = .ok final := by
  induction count generalizing state with
  | zero =>
    cases hr : state.round image mode controls with
    | error outcome =>
      rw [after_succ_of_end 0 hr] at h
      cases h
    | ok next =>
      rw [after_succ_of_round 0 hr, after_zero] at h
      cases h
      exact ⟨state, after_zero, hr⟩
  | succ count ih =>
    cases hr : state.round image mode controls with
    | error outcome =>
      rw [after_succ_of_end _ hr] at h
      cases h
    | ok next =>
      rw [after_succ_of_round _ hr] at h
      obtain ⟨middle, hm, hl⟩ := ih h
      exact ⟨middle, by rw [after_succ_of_round _ hr, hm], hl⟩

/-- The instructions of a run can be counted in two parts. -/
theorem after_add {middle : State} {first : Nat} (second : Nat)
    (h : state.after image mode controls first = some middle) :
    state.after image mode controls (first + second) = middle.after image mode controls second := by
  induction first generalizing state with
  | zero =>
    have he : state = middle := Option.some.inj h
    rw [he, Nat.zero_add]
  | succ first ih =>
    rw [Nat.add_right_comm]
    cases hr : state.round image mode controls with
    | error outcome =>
      rw [after_succ_of_end first hr] at h
      cases h
    | ok next =>
      rw [after_succ_of_round _ hr] at h ⊢
      exact ih h

end State

variable {image : Image} {mode : Mode} {controls : Controls} {state final : State}

/-- A property that every instruction keeps holds in every state of a run. -/
theorem State.after_induction {motive : State → Prop} {count : Nat}
    (h : state.after image mode controls count = some final) (start : motive state)
    (step : ∀ s t : State, motive s → s.round image mode controls = .ok t → motive t) :
    motive final := by
  induction count generalizing state with
  | zero =>
    rw [State.after_zero] at h
    cases h
    exact start
  | succ count ih =>
    cases hr : state.round image mode controls with
    | error outcome =>
      rw [State.after_succ_of_end count hr] at h
      cases h
    | ok next =>
      rw [State.after_succ_of_round count hr] at h
      exact ih h (step state next start hr)

/-- No instruction mends or breaks the output. -/
theorem State.outputFault_of_after {count : Nat}
    (h : state.after image mode controls count = some final) :
    final.console.outputFault = state.console.outputFault := by
  refine State.after_induction
    (motive := fun s => s.console.outputFault = state.console.outputFault) h rfl ?_
  intro s t hs ht
  obtain ⟨symbol, action, -, -, -, rfl⟩ := State.round_eq_ok_iff.mp ht
  rw [State.outputFault_perform, hs]

/-- A run goes on as its first round does. -/
theorem runFrom_succ_ok {next : State} (fuel : Nat)
    (h : state.round image mode controls = .ok next) :
    runFrom image mode controls (fuel + 1) state = runFrom image mode controls fuel next := by
  obtain ⟨symbol, action, hs, hr, hd, rfl⟩ := State.round_eq_ok_iff.mp h
  simp only [runFrom, hs, hr, hd]

/-- A run ends as its first round does. -/
theorem runFrom_succ_end {outcome : Outcome} (fuel : Nat)
    (h : state.round image mode controls = .error outcome) :
    runFrom image mode controls (fuel + 1) state = (outcome, state) := by
  cases outcome with
  | halted =>
    obtain ⟨hs, hc⟩ := State.round_eq_halted_iff.mp h
    simp only [runFrom, hs, hc]
  | failed fault =>
    obtain ⟨hs, hc⟩ | ⟨symbol, hs, hr | ⟨hr, hd⟩⟩ := State.round_eq_failed_iff.mp h
    · simp only [runFrom, hs, hc]
    · simp only [runFrom, hs, hr]
    · simp only [runFrom, hs, hr, hd]
  | unfinished => exact absurd h State.round_ne_unfinished

/-- A run with fuel is unfinished in the state that its fuel takes it to, or ends in the first state
in which a round ends it. -/
theorem runFrom_eq_iff {fuel : Nat} {outcome : Outcome} :
    runFrom image mode controls fuel state = (outcome, final) ↔
      (outcome = .unfinished ∧ state.after image mode controls fuel = some final) ∨
      ∃ count, count < fuel ∧ state.after image mode controls count = some final ∧
        final.round image mode controls = .error outcome := by
  induction fuel generalizing state with
  | zero =>
    simp only [runFrom, State.after_zero, Nat.not_lt_zero, false_and, exists_false, or_false,
      Prod.mk.injEq, Option.some.injEq]
    exact and_congr_left' eq_comm
  | succ fuel ih =>
    cases hr : state.round image mode controls with
    | error ending =>
      rw [runFrom_succ_end fuel hr, State.after_succ_of_end fuel hr]
      constructor
      · intro h
        cases h
        exact .inr ⟨0, Nat.succ_pos fuel, State.after_zero, hr⟩
      · rintro (⟨-, h⟩ | ⟨count, -, h, he⟩)
        · cases h
        · cases count with
          | zero =>
            rw [State.after_zero] at h
            cases h
            rw [hr] at he
            cases he
            rfl
          | succ count =>
            rw [State.after_succ_of_end count hr] at h
            cases h
    | ok next =>
      rw [runFrom_succ_ok fuel hr, State.after_succ_of_round fuel hr, ih]
      constructor
      · rintro (h | ⟨count, hc, h, he⟩)
        · exact .inl h
        · refine .inr ⟨count + 1, Nat.succ_lt_succ hc, ?_, he⟩
          rw [State.after_succ_of_round count hr, h]
      · rintro (h | ⟨count, hc, h, he⟩)
        · exact .inl h
        · cases count with
          | zero =>
            rw [State.after_zero] at h
            cases h
            rw [hr] at he
            cases he
          | succ count =>
            rw [State.after_succ_of_round count hr] at h
            exact .inr ⟨count, Nat.lt_of_succ_lt_succ hc, h, he⟩

/-- A run with fuel stops in a state that some number of instructions leads to. -/
theorem exists_after_runFrom (image : Image) (mode : Mode) (controls : Controls) (fuel : Nat)
    (state : State) :
    ∃ count, state.after image mode controls count =
      some (runFrom image mode controls fuel state).2 := by
  obtain ⟨-, h⟩ | ⟨count, -, h, -⟩ :=
    runFrom_eq_iff.mp (rfl : runFrom image mode controls fuel state = (_, _))
  · exact ⟨fuel, h⟩
  · exact ⟨count, h⟩

/-- A run ends in the same way under any larger amount of fuel. -/
theorem runFrom_of_after {fuel count : Nat} {outcome : Outcome}
    (h : state.after image mode controls count = some final)
    (he : final.round image mode controls = .error outcome) (hf : count < fuel) :
    runFrom image mode controls fuel state = (outcome, final) :=
  runFrom_eq_iff.mpr (.inr ⟨count, hf, h, he⟩)

/-- A run goes on from the state that its first instructions lead to. -/
theorem runFrom_add_of_after {count : Nat} {middle : State} (fuel : Nat)
    (h : state.after image mode controls count = some middle) :
    runFrom image mode controls (count + fuel) state = runFrom image mode controls fuel middle := by
  induction count generalizing state with
  | zero =>
    have he : state = middle := Option.some.inj h
    rw [he, Nat.zero_add]
  | succ count ih =>
    cases hr : state.round image mode controls with
    | error outcome =>
      rw [State.after_succ_of_end count hr] at h
      cases h
    | ok next =>
      rw [State.after_succ_of_round count hr] at h
      rw [Nat.add_right_comm, runFrom_succ_ok _ hr, ih h]

/-- A run ends in one way only. -/
theorem State.end_unique {first second : Nat} {a b : State} {ending other : Outcome}
    (ha : state.after image mode controls first = some a)
    (hae : a.round image mode controls = .error ending)
    (hb : state.after image mode controls second = some b)
    (hbe : b.round image mode controls = .error other) : ending = other ∧ a = b := by
  have h₁ := runFrom_of_after ha hae (Nat.lt_add_of_pos_right (Nat.succ_pos second))
  have h₂ := runFrom_of_after hb hbe (show second < first + (second + 1) by omega)
  exact Prod.mk.inj (h₁.symm.trans h₂)

/-- A state on the way to the end of a run has the rest of the run before it. -/
theorem State.rest_of_after {first total : Nat} {middle final : State} {outcome : Outcome}
    (hm : state.after image mode controls first = some middle)
    (hf : state.after image mode controls total = some final)
    (he : final.round image mode controls = .error outcome) :
    ∃ rest, total = first + rest ∧ middle.after image mode controls rest = some final := by
  rcases Nat.le_total first total with hl | hl
  · obtain ⟨rest, rfl⟩ := Nat.exists_eq_add_of_le hl
    exact ⟨rest, rfl, by rw [← State.after_add rest hm, hf]⟩
  · obtain ⟨rest, rfl⟩ := Nat.exists_eq_add_of_le hl
    rw [State.after_add rest hf] at hm
    cases rest with
    | zero =>
      rw [State.after_zero] at hm
      cases hm
      exact ⟨0, rfl, State.after_zero⟩
    | succ rest =>
      rw [State.after_succ_of_end rest he] at hm
      cases hm

/-- The state in which a run of a machine begins. -/
def start (machine : Machine) : State :=
  ⟨machine.tape, 0, 0, machine.console, #[]⟩

/-- The program of a machine made ready to run with a jump table. -/
def ready (machine : Machine) (jumps : Jumps.Table) : Image :=
  ⟨machine.program.symbols, jumps, machine.eof⟩

/-- The machine that a run leaves behind. -/
def resumed (machine : Machine) (state : State) : Machine :=
  ⟨machine.program, state.tape, machine.eof, state.console⟩

/-- A run of a program with a jump table is a run from the start of the program. -/
theorem run_of_jumps {machine : Machine} {jumps : Jumps.Table} (fuel : Nat) (mode : Mode)
    (controls : Controls) (h : machine.program.jumps = .ok jumps) :
    machine.run fuel mode controls =
      let ended := runFrom (machine.ready jumps) mode controls fuel machine.start
      ⟨ended.1, machine.resumed ended.2, ended.2.steps, listing mode ended.2.rows⟩ := by
  simp only [run, h]
  rfl

/-- What a run of a program with a jump table leaves, told by the state in which it stops. -/
theorem run_of_runFrom {machine : Machine} {jumps : Jumps.Table} {fuel : Nat} {mode : Mode}
    {controls : Controls} {outcome : Outcome} {final : State}
    (h : machine.program.jumps = .ok jumps)
    (hr : runFrom (machine.ready jumps) mode controls fuel machine.start = (outcome, final)) :
    machine.run fuel mode controls =
      ⟨outcome, machine.resumed final, final.steps, listing mode final.rows⟩ := by
  rw [run_of_jumps fuel mode controls h, hr]

/-- How a run of a program with a jump table ends, told by its rounds. -/
theorem outcome_run_eq_iff {machine : Machine} {jumps : Jumps.Table} {fuel : Nat} {mode : Mode}
    {controls : Controls} {outcome : Outcome} (h : machine.program.jumps = .ok jumps)
    (hu : outcome ≠ .unfinished) :
    (machine.run fuel mode controls).outcome = outcome ↔
      ∃ count state, count < fuel ∧
        machine.start.after (machine.ready jumps) mode controls count = some state ∧
        state.round (machine.ready jumps) mode controls = .error outcome := by
  rw [run_of_jumps fuel mode controls h]
  constructor
  · intro ho
    obtain ⟨hf, -⟩ | ⟨count, hc, ha, he⟩ := runFrom_eq_iff.mp (Prod.ext ho rfl)
    · exact absurd hf hu
    · exact ⟨count, _, hc, ha, he⟩
  · rintro ⟨count, state, hc, ha, he⟩
    rw [runFrom_of_after ha he hc]

/-- A run of a program without a jump table fails before anything happens. -/
theorem run_of_unmatched {machine : Machine} {place : Nat} (fuel : Nat) (mode : Mode)
    (controls : Controls) (h : machine.program.jumps = .error place) :
    machine.run fuel mode controls = ⟨.failed (.unmatchedBrace place), machine, 0, []⟩ := by
  simp only [run, h]

/-- A run that ends has the same result under any larger amount of fuel. -/
theorem run_of_le {machine : Machine} {fuel more : Nat} {mode : Mode} {controls : Controls}
    (hle : fuel ≤ more) (h : (machine.run fuel mode controls).outcome ≠ .unfinished) :
    machine.run more mode controls = machine.run fuel mode controls := by
  cases hj : machine.program.jumps with
  | error place =>
    rw [run_of_unmatched more mode controls hj, run_of_unmatched fuel mode controls hj]
  | ok jumps =>
    cases hr : runFrom (machine.ready jumps) mode controls fuel machine.start with
    | mk outcome final =>
    rw [run_of_runFrom hj hr] at h ⊢
    obtain ⟨hu, -⟩ | ⟨count, hc, ha, he⟩ := runFrom_eq_iff.mp hr
    · exact absurd hu h
    · exact run_of_runFrom hj (runFrom_of_after ha he (Nat.lt_of_lt_of_le hc hle))

/-- Nothing but a rehearsal writes a trace. -/
theorem lines_run_live (machine : Machine) (fuel : Nat) (controls : Controls) :
    (machine.run fuel .live controls).lines = [] := by
  cases hj : machine.program.jumps with
  | error place => rw [run_of_unmatched fuel .live controls hj]
  | ok jumps =>
    rw [run_of_jumps fuel .live controls hj]
    rfl

end Machine

end ScrewLang
