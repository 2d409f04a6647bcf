import ScrewLang.Proofs.Machine.Limits

/-!
# Rehearsals

A rehearsal goes through the same states as a live run that finds no input: it takes the same
decisions and does the same to the tape. Its console stays as it is, and its trace has one row for
every instruction carried out, which shows the state of the live run just before that instruction.
-/

namespace ScrewLang

/-- The devices of a console work, and no input is left. -/
structure Console.Exhausted (console : Console) : Prop where
  working : console.Working
  input : console.input = []

namespace Machine

namespace Action

variable {tape : Tape} {console : Console}

/-- Working devices refuse nothing. -/
theorem refusal?_eq_none (action : Action) (tape : Tape) (h : console.Working) :
    action.refusal? tape console = none := by
  obtain ⟨hi, ho⟩ := h
  cases action with
  | read => simp [refusal?, Console.readRefusal?, Console.flushRefusal?, hi, ho]
  | emit | dump => simp [refusal?, Console.emitRefusal?, ho]
  | move | increment | decrement | skip | enter | loop | leave => rfl

/-- Where no input is left, no action reads a byte. -/
theorem converse_fst_eq_none (action : Action) (tape : Tape) (h : console.input = []) :
    (action.converse tape console).1 = none := by
  cases action with
  | read => simp [converse, Console.read, h]
  | move | increment | decrement | emit | skip | enter | loop | leave | dump => rfl

/-- Where no input is left, none is left after any action. -/
theorem exhausted_converse (action : Action) (tape : Tape) (h : console.Exhausted) :
    (action.converse tape console).2.Exhausted := by
  cases action with
  | read => simpa [converse, Console.read, h.input] using h
  | emit | dump => exact ⟨h.working, h.input⟩
  | move | increment | decrement | skip | enter | loop | leave => exact h

end Action

namespace State

/-- A rehearsed state agrees with a live one that finds no input in all that decides how they go
on. -/
structure Rehearses (rehearsed live : State) : Prop where
  tape : rehearsed.tape = live.tape
  place : rehearsed.place = live.place
  steps : rehearsed.steps = live.steps
  exhausted : live.console.Exhausted

variable {image : Image} {controls : Controls} {rehearsed live final : State}

/-- Both states take the same decision. -/
theorem Rehearses.decision (h : rehearsed.Rehearses live) (image : Image) (symbol : Symbol) :
    rehearsed.decision image .rehearsal symbol = live.decision image .live symbol := by
  rw [State.decision, State.decision, h.tape, h.place]
  cases plan image live.tape live.place symbol with
  | error fault => rfl
  | ok action => simp only [action.refusal?_eq_none live.tape h.exhausted.working]

/-- Both states do the same to the tape. -/
theorem Rehearses.perform (h : rehearsed.Rehearses live) (image : Image) (symbol : Symbol)
    (action : Action) :
    (rehearsed.perform image .rehearsal symbol action).Rehearses
      (live.perform image .live symbol action) where
  tape := by
    show action.apply image.eof none rehearsed.tape =
      action.apply image.eof (action.converse live.tape live.console).1 live.tape
    rw [action.converse_fst_eq_none live.tape h.exhausted.input, h.tape]
  place := by rw [place_perform, place_perform, h.place]
  steps := by rw [steps_perform, steps_perform, h.steps]
  exhausted := action.exhausted_converse live.tape h.exhausted

/-- Both states end in the same way, or both carry the same action out. -/
theorem Rehearses.round (h : rehearsed.Rehearses live) (image : Image) (controls : Controls) :
    (∃ outcome, rehearsed.round image .rehearsal controls = .error outcome ∧
      live.round image .live controls = .error outcome) ∨
    ∃ symbol action, image.symbols[live.place]? = some symbol ∧
      live.decision image .live symbol = .ok action ∧
      rehearsed.round image .rehearsal controls =
        .ok (rehearsed.perform image .rehearsal symbol action) ∧
      live.round image .live controls = .ok (live.perform image .live symbol action) := by
  rw [State.round, State.round, h.place, h.steps]
  cases hs : image.symbols[live.place]? with
  | none =>
    refine .inl ⟨.halted, rfl, ?_⟩
    simp only [closing?_eq_none .live h.exhausted.working.2]
  | some symbol =>
    cases hr : controls.refusal? live.steps with
    | some fault => exact .inl ⟨.failed fault, rfl, rfl⟩
    | none =>
      simp only [h.decision]
      cases hd : live.decision image .live symbol with
      | error fault => exact .inl ⟨.failed fault, rfl, rfl⟩
      | ok action => exact .inr ⟨symbol, action, rfl, hd, rfl, rfl⟩

end State

/-- A rehearsal ends as the live run does, in a state that agrees with the one the live run ends in.
-/
theorem runFrom_rehearsal (image : Image) (controls : Controls) {rehearsed live : State}
    (h : rehearsed.Rehearses live) (fuel : Nat) :
    (runFrom image .rehearsal controls fuel rehearsed).1 =
        (runFrom image .live controls fuel live).1 ∧
      (runFrom image .rehearsal controls fuel rehearsed).2.Rehearses
        (runFrom image .live controls fuel live).2 := by
  induction fuel generalizing rehearsed live with
  | zero => exact ⟨rfl, h⟩
  | succ fuel ih =>
    rcases h.round image controls with ⟨outcome, hr, hl⟩ | ⟨symbol, action, -, -, hr, hl⟩
    · rw [runFrom_succ_end fuel hr, runFrom_succ_end fuel hl]
      exact ⟨rfl, h⟩
    · rw [runFrom_succ_ok fuel hr, runFrom_succ_ok fuel hl]
      exact ih (h.perform image symbol action)

/-! ### The trace -/

namespace Row

/-- A text with blanks behind it up to a width. -/
def column (width : Nat) (text : String) : String :=
  text ++ String.ofList (List.replicate (width - text.length) ' ')

theorem pad_eq_column (width : Nat) (text : String) : pad width text = column width text := by
  rw [pad, List.rightpad, String.ofList_append, String.ofList_toList, String.length_toList]
  rfl

theorem render_eq (row : Row) :
    row.render =
      column 4 (Nat.repr row.step) ++ " | " ++ column 3 (Nat.repr row.place) ++ " | " ++
        column 3 (Nat.repr row.cursor) ++ " | " ++ column 4 (toString row.cell.toInt) ++ " |  " ++
        row.symbol.glyph.toString ++ "    | " ++ row.note := by
  have hopening : " |  " = " | " ++ " " := by decide
  have hclosing : "    | " = "   " ++ " | " := by decide
  simp only [render, pad_eq_column, showCell, String.intercalate_cons_cons,
    String.intercalate_singleton, hopening, hclosing, String.append_assoc]

end Row

namespace State

/-- A line shows a state in which an instruction is carried out: the number `k` of instructions
before it, its place, the cursor and the current cell, each in a column of its own, the symbol of the
instruction, and what it does. -/
def ShownBy (image : Image) (state : State) (k : Nat) (line : String) : Prop :=
  ∃ symbol action, image.symbols[state.place]? = some symbol ∧
    plan image state.tape state.place symbol = .ok action ∧
    line =
      Row.column 4 (Nat.repr k) ++ " | " ++ Row.column 3 (Nat.repr state.place) ++ " | " ++
        Row.column 3 (Nat.repr state.tape.cursor) ++ " | " ++
        Row.column 4 (toString state.tape.get.toInt) ++ " |  " ++ symbol.glyph.toString ++
        "    | " ++ action.describe image.eof state.tape

variable {image : Image} {controls : Controls} {origin rehearsed live : State} {symbol : Symbol}
  {action : Action}

/-- The row that a rehearsal adds shows the live run. -/
theorem Rehearses.shownBy (h : rehearsed.Rehearses live)
    (hs : image.symbols[live.place]? = some symbol)
    (hd : live.decision image .live symbol = .ok action) :
    live.ShownBy image rehearsed.steps (rehearsed.row image symbol action).render := by
  refine ⟨symbol, action, hs, (decision_eq_ok_iff.mp hd).1, ?_⟩
  rw [Row.render_eq, State.row, h.tape, h.place]

/-- The trace of a rehearsal has one row for every instruction, and the row numbered `k` shows the
live run from `origin` after `k` instructions. -/
structure Traced (image : Image) (controls : Controls) (origin state : State) : Prop where
  size : state.rows.size = state.steps
  row : ∀ (k : Nat) (row : Row), state.rows[k]? = some row →
    ∃ live, origin.after image .live controls k = some live ∧ live.ShownBy image k row.render

/-- One instruction adds one row to a trace. -/
theorem Traced.perform (h : Traced image controls origin rehearsed)
    (hl : origin.after image .live controls rehearsed.steps = some live)
    (hr : rehearsed.Rehearses live) (hs : image.symbols[live.place]? = some symbol)
    (hd : live.decision image .live symbol = .ok action) :
    Traced image controls origin (rehearsed.perform image .rehearsal symbol action) where
  size := by
    show (rehearsed.rows.push _).size = rehearsed.steps + 1
    rw [Array.size_push, h.size]
  row := by
    intro k row hk
    replace hk : (rehearsed.rows.push (rehearsed.row image symbol action))[k]? = some row := hk
    rw [Array.getElem?_push, h.size] at hk
    split at hk
    · next he =>
      cases hk
      subst he
      exact ⟨live, hl, hr.shownBy hs hd⟩
    · exact h.row k row hk

/-- What a rehearsal keeps from its start: it agrees with the live run, its console is the one it
began with, and its trace shows the live run. -/
structure Follows (image : Image) (controls : Controls) (origin : State) (console : Console)
    (state : State) : Prop where
  rehearses : ∃ live, origin.after image .live controls state.steps = some live ∧
    state.Rehearses live
  console : state.console = console
  traced : Traced image controls origin state

theorem Follows.round {console : Console} {next : State}
    (h : Follows image controls origin console rehearsed)
    (hn : rehearsed.round image .rehearsal controls = .ok next) :
    Follows image controls origin console next := by
  obtain ⟨live, hl, hr⟩ := h.rehearses
  rcases hr.round image controls with ⟨outcome, he, -⟩ | ⟨symbol, action, hs, hd, ho, hlive⟩
  · rw [hn] at he
    cases he
  · rw [hn] at ho
    cases ho
    refine ⟨⟨live.perform image .live symbol action, ?_, hr.perform image symbol action⟩,
      h.console, h.traced.perform hl hr hs hd⟩
    rw [steps_perform, after_add 1 hl, after_one hlive]

/-- A whole rehearsal keeps what its instructions keep. -/
theorem Rehearses.follows_runFrom (h : rehearsed.Rehearses live) (hsteps : rehearsed.steps = 0)
    (hrows : rehearsed.rows = #[]) (fuel : Nat) :
    Follows image controls live rehearsed.console
      (runFrom image .rehearsal controls fuel rehearsed).2 := by
  obtain ⟨count, ha⟩ := exists_after_runFrom image .rehearsal controls fuel rehearsed
  refine after_induction ha ?_ fun _ _ hs hr => hs.round hr
  refine ⟨⟨live, ?_, h⟩, rfl, ?_, ?_⟩
  · rw [hsteps, after_zero]
  · rw [hrows, hsteps]
    rfl
  · simp [hrows]

end State

/-- A rehearsal ends with the result, the tape and the cursor of a live run that finds no input,
whatever is queued, and leaves the console alone. Its trace is empty without a jump table; otherwise
it is two header lines and one line for every instruction carried out. The line numbered `k` shows
`k` and the place, the cursor, the current cell and the symbol of the live run after `k`
instructions, and says what the instruction met there does. -/
theorem rehearsal_simulates_live (machine : Machine) {quiet : Console} (hq : quiet.Exhausted)
    (fuel : Nat) (controls : Controls) :
    let unfed : Machine := { machine with console := quiet }
    let real := unfed.run fuel .live controls
    let rehearsed := machine.run fuel .rehearsal controls
    rehearsed.outcome = real.outcome ∧ rehearsed.steps = real.steps ∧
      rehearsed.machine = { machine with tape := real.machine.tape } ∧
      (∀ place, machine.program.jumps = .error place → rehearsed.lines = []) ∧
      ∀ jumps, machine.program.jumps = .ok jumps → ∃ rows : List String,
        rehearsed.lines =
            "STEP | IP  | PTR | CELL | INSTR | ACTION" ::
            "-----+-----+-----+------+-------+------------------------------------------------" ::
            rows ∧
          rows.length = real.steps ∧
          ∀ k line, rows[k]? = some line → ∃ state,
            unfed.Reaches .live controls k state ∧ state.ShownBy (machine.ready jumps) k line := by
  intro unfed real rehearsed
  cases hj : machine.program.jumps with
  | error place =>
    have hreal : real = ⟨.failed (.unmatchedBrace place), unfed, 0, []⟩ :=
      run_of_unmatched fuel .live controls hj
    have hrehearsed : rehearsed = ⟨.failed (.unmatchedBrace place), machine, 0, []⟩ :=
      run_of_unmatched fuel .rehearsal controls hj
    rw [hreal, hrehearsed]
    exact ⟨rfl, rfl, rfl, fun _ _ => rfl, fun _ h => by cases h⟩
  | ok jumps =>
    have hstart : machine.start.Rehearses unfed.start := ⟨rfl, rfl, rfl, hq⟩
    obtain ⟨houtcome, hfinal⟩ :=
      runFrom_rehearsal (machine.ready jumps) controls hstart fuel
    have hfollows : State.Follows (machine.ready jumps) controls unfed.start machine.console
        (runFrom (machine.ready jumps) .rehearsal controls fuel machine.start).2 :=
      hstart.follows_runFrom rfl rfl fuel
    have hreal := run_of_jumps fuel .live controls (show unfed.program.jumps = .ok jumps from hj)
    have hrehearsed := run_of_jumps fuel .rehearsal controls hj
    simp only [real, rehearsed, hreal, hrehearsed]
    refine ⟨houtcome, hfinal.steps, ?_, fun _ h => (by cases h), fun other h => ?_⟩
    · simp only [resumed, hfollows.console, hfinal.tape]
      rfl
    · cases h
      let final := (runFrom (machine.ready jumps) .rehearsal controls fuel machine.start).2
      refine ⟨final.rows.toList.map Row.render, rfl, ?_, fun k line hk => ?_⟩
      · rw [List.length_map, Array.length_toList, hfollows.traced.size]
        exact hfinal.steps
      · rw [List.getElem?_map, Array.getElem?_toList, Option.map_eq_some_iff] at hk
        obtain ⟨row, hrow, rfl⟩ := hk
        obtain ⟨live, hlive, hshown⟩ := hfollows.traced.row k row hrow
        exact ⟨live, ⟨jumps, hj, hlive⟩, hshown⟩

/-- A rehearsal of reading, output and a move off a tape of one cell reads nothing of what is
queued, fails on the move, and shows the two instructions before it. -/
theorem rehearsal_simulates_live_short_tape :
    let program : Program := ⟨#[.input, .output, .right]⟩
    let machine : Machine := fresh program 1 .minusOne (Console.ofInput [7])
    let rehearsed := machine.run 9 .rehearsal Controls.none
    (Console.ofInput []).Exhausted ∧
      rehearsed.outcome = .failed (.cursorOutOfBounds 2 0 .right) ∧
      rehearsed.machine = ⟨program, ⟨#[-1], 0⟩, .minusOne, Console.ofInput [7]⟩ ∧
      rehearsed.lines =
        ["STEP | IP  | PTR | CELL | INSTR | ACTION",
          "-----+-----+-----+------+-------+------------------------------------------------",
          "0    | 0   | 0   | 0    |  ?    | Read byte -> simulated EOF (minus-one), cell = -1",
          "1    | 1   | 0   | -1   |  .    | Output byte 255 (suppressed in debug)"] := by
  intro program machine rehearsed
  have hq : (Console.ofInput []).Exhausted := ⟨⟨rfl, rfl⟩, rfl⟩
  obtain ⟨houtcome, -, hmachine, -, -⟩ :=
    rehearsal_simulates_live machine hq 9 Controls.none
  exact ⟨hq, houtcome, hmachine, by decide +kernel⟩

end Machine

end ScrewLang
