import ScrewLang.Proofs.Machine.Synchrony
import ScrewLang.Proofs.Program.Concatenation

/-!
# Running one program after another

A program made of two runs as the first one does, as long as that one runs; and where the first one
halts, the second one takes over, on the tape and the console that it finds. From there on every
place is behind the first program and every instruction is counted on top of those of the first; all
else is as in a run of the second program by itself.
-/

namespace ScrewLang

/-- A console on which something has been emitted before. -/
def Console.prepend (earlier : Array (List UInt8)) (console : Console) : Console :=
  { console with emissions := earlier ++ console.emissions }

/-- A console on which nothing has been emitted yet. -/
def Console.fresh (console : Console) : Console :=
  { console with emissions := #[] }

theorem Console.read_prepend (earlier : Array (List UInt8)) (console : Console) :
    (console.prepend earlier).read = (console.read.1, console.read.2.prepend earlier) := by
  obtain ⟨input, emissions, inputFault, outputFault, held⟩ := console
  cases input <;> rfl

theorem Console.emit_prepend (earlier : Array (List UInt8)) (console : Console)
    (output : List UInt8) :
    (console.prepend earlier).emit output = (console.emit output).prepend earlier := by
  show Console.mk _ ((earlier ++ console.emissions).push output) _ _ _ = _
  rw [← Array.append_push]
  rfl

namespace Machine

/-! ### Faults and actions behind another program -/

/-- A fault at a place behind some others. -/
def Fault.shift (offset : Nat) : Fault → Fault
  | .cursorOutOfBounds place cursor symbol => .cursorOutOfBounds (offset + place) cursor symbol
  | .unknownSymbol place symbol => .unknownSymbol (offset + place) symbol
  | .dump place cause => .dump (offset + place) cause
  | .unmatchedBrace place => .unmatchedBrace (offset + place)
  | .device place cause => .device (offset + place) cause
  | .stepLimit limit => .stepLimit limit
  | .canceled => .canceled

/-- An end of a run at a place behind some others. -/
def Outcome.shift (offset : Nat) : Outcome → Outcome
  | .halted => .halted
  | .failed fault => .failed (fault.shift offset)
  | .unfinished => .unfinished

/-- An action with its jumps behind some other places. -/
def Action.shift (offset : Nat) : Action → Action
  | .skip partner => .skip (offset + partner)
  | .loop partner => .loop (offset + partner)
  | action => action

namespace Action

variable (offset : Nat) (action : Action) (tape : Tape) (console : Console)

theorem next_shift (place : Nat) :
    (action.shift offset).next (offset + place) = offset + action.next place := by
  cases action <;> rfl

theorem apply_shift (eof : EofPolicy) (byte? : Option UInt8) :
    (action.shift offset).apply eof byte? tape = action.apply eof byte? tape := by
  cases action <;> rfl

/-- What has been emitted before does not decide whether the console refuses an action. -/
theorem refusal?_shift_prepend (earlier : Array (List UInt8)) :
    (action.shift offset).refusal? tape (console.prepend earlier) =
      action.refusal? tape console := by
  cases action <;> rfl

/-- What has been emitted before stays, and has no influence on what is read and emitted. -/
theorem converse_shift_prepend (earlier : Array (List UInt8)) :
    (action.shift offset).converse tape (console.prepend earlier) =
      ((action.converse tape console).1, (action.converse tape console).2.prepend earlier) := by
  cases action with
  | read => exact Console.read_prepend earlier console
  | emit => exact Prod.ext rfl (Console.emit_prepend earlier console _)
  | dump range => exact Prod.ext rfl (Console.emit_prepend earlier console _)
  | move | increment | decrement | skip | enter | loop | leave => rfl

end Action

/-! ### Plans in a program made of two -/

section Plans

variable {first second : Program} {left right jumps : Jumps.Table} {eof : EofPolicy} {tape : Tape}
  {place : Nat}

/-- What the first program plans is planned in the whole. -/
theorem plan_append_left {symbol : Symbol} {action : Action}
    (hw : (first.append second).jumps = .ok jumps) (hl : first.jumps = .ok left)
    (hd : Dump.digitAt? second.symbols 0 = none) (hp : place < first.size)
    (h : plan ⟨first.symbols, left, eof⟩ tape place symbol = .ok action) :
    plan ⟨(first.append second).symbols, jumps, eof⟩ tape place symbol = .ok action := by
  cases symbol with
  | brace side =>
    have hj := Program.getD_jumps_append_left hw hl hp
    cases side with
    | opening | closing =>
      simp only [plan] at h ⊢
      rw [hj]
      exact h
  | star =>
    simp only [plan] at h ⊢
    split at h
    · next range hr =>
      rw [Dump.parse_append_left hr hd]
      exact h
    · cases h
  | right | left | increment | decrement | output | input | caret | digit => exact h

/-- What the second program plans is planned in the whole, behind the first. -/
theorem plan_append_right (hw : (first.append second).jumps = .ok jumps)
    (hr : second.jumps = .ok right) (symbol : Symbol) :
    plan ⟨(first.append second).symbols, jumps, eof⟩ tape (first.size + place) symbol =
      ((plan ⟨second.symbols, right, eof⟩ tape place symbol).map
        (Action.shift first.size)).mapError (Fault.shift first.size) := by
  have hj := Program.getD_jumps_append_right hw hr place
  cases symbol with
  | right | left =>
    simp only [plan]
    split <;> rfl
  | brace side =>
    cases side with
    | opening | closing =>
      simp only [plan, hj]
      split
      · cases right.getD place none <;> rfl
      · cases right.getD place none <;> rfl
  | star =>
    simp only [plan, Dump.parse_append_right]
    cases Dump.parse second.symbols place tape.size <;> rfl
  | increment | decrement | output | input | caret | digit => rfl

end Plans

/-! ### Rounds and runs of a program made of two -/

namespace State

/-- A state of a program that runs after another one has stopped in the state `earlier`. -/
def following (earlier state : State) : State where
  tape := state.tape
  place := earlier.place + state.place
  steps := earlier.steps + state.steps
  console := state.console.prepend earlier.console.emissions
  rows := earlier.rows

/-- The state in which a program takes over from another one. -/
def takeover (earlier : State) : State :=
  ⟨earlier.tape, 0, 0, earlier.console.fresh, #[]⟩

theorem following_takeover (earlier : State) : earlier.following earlier.takeover = earlier := by
  simp [following, takeover, Console.prepend, Console.fresh]

variable {first second : Program} {left right jumps : Jumps.Table} {eof : EofPolicy}
  {earlier state next final : State}

/-- A round of the first program that goes on is one of the whole. -/
theorem round_append_left (hw : (first.append second).jumps = .ok jumps)
    (hl : first.jumps = .ok left) (hd : Dump.digitAt? second.symbols 0 = none)
    (h : state.round ⟨first.symbols, left, eof⟩ .live Controls.none = .ok next) :
    state.round ⟨(first.append second).symbols, jumps, eof⟩ .live Controls.none = .ok next := by
  obtain ⟨symbol, action, hs, hr, hdecision, rfl⟩ := round_eq_ok_iff.mp h
  obtain ⟨hplan, hlive⟩ := decision_eq_ok_iff.mp hdecision
  have hp : state.place < first.size := (Array.getElem?_eq_some_iff.mp hs).1
  refine round_eq_ok_iff.mpr ⟨symbol, action, ?_, hr, ?_, rfl⟩
  · rw [← hs]
    exact Program.getElem?_append_left hp
  · exact decision_eq_ok_iff.mpr ⟨plan_append_left hw hl hd hp hplan, hlive⟩

/-- Instructions of the first program are carried out in the whole. -/
theorem after_append_left {count : Nat} (hw : (first.append second).jumps = .ok jumps)
    (hl : first.jumps = .ok left) (hd : Dump.digitAt? second.symbols 0 = none)
    (h : state.after ⟨first.symbols, left, eof⟩ .live Controls.none count = some final) :
    state.after ⟨(first.append second).symbols, jumps, eof⟩ .live Controls.none count =
      some final := by
  induction count generalizing state with
  | zero => exact h
  | succ count ih =>
    cases hr : state.round ⟨first.symbols, left, eof⟩ .live Controls.none with
    | error outcome =>
      rw [after_succ_of_end count hr] at h
      cases h
    | ok next =>
      rw [after_succ_of_round count hr] at h
      rw [after_succ_of_round count (round_append_left hw hl hd hr)]
      exact ih h

/-- The same is decided behind another program. -/
theorem decision_following (hw : (first.append second).jumps = .ok jumps)
    (hr : second.jumps = .ok right) (hp : earlier.place = first.size) (symbol : Symbol) :
    (earlier.following state).decision ⟨(first.append second).symbols, jumps, eof⟩ .live symbol =
      ((state.decision ⟨second.symbols, right, eof⟩ .live symbol).map
        (Action.shift first.size)).mapError (Fault.shift first.size) := by
  rw [decision, decision]
  simp only [following, hp, plan_append_right hw hr]
  cases plan ⟨second.symbols, right, eof⟩ state.tape state.place symbol with
  | error fault => rfl
  | ok action =>
    have hplan : ((Except.ok action).map (Action.shift first.size)).mapError
        (Fault.shift first.size) = .ok (action.shift first.size) := rfl
    rw [hplan]
    simp only [Action.refusal?_shift_prepend]
    cases action.refusal? state.tape state.console <;> rfl

theorem perform_following (hp : earlier.place = first.size) (symbol : Symbol) (action : Action) :
    (earlier.following state).perform ⟨(first.append second).symbols, jumps, eof⟩ .live symbol
        (action.shift first.size) =
      earlier.following (state.perform ⟨second.symbols, right, eof⟩ .live symbol action) := by
  simp only [perform, following, hp, Action.converse_shift_prepend, Action.apply_shift,
    Action.next_shift, Nat.add_assoc]

/-- A round of the second program is one of the whole, behind the first. -/
theorem round_following (eof : EofPolicy) (state : State)
    (hw : (first.append second).jumps = .ok jumps) (hr : second.jumps = .ok right)
    (hp : earlier.place = first.size) :
    (earlier.following state).round ⟨(first.append second).symbols, jumps, eof⟩ .live
        Controls.none =
      ((state.round ⟨second.symbols, right, eof⟩ .live Controls.none).map
        earlier.following).mapError (Outcome.shift first.size) := by
  have hs : (first.append second).symbols[(earlier.following state).place]? =
      second.symbols[state.place]? := by
    rw [following, hp, Program.getElem?_append_right]
  have hc : (earlier.following state).closing? .live =
      (state.closing? .live).map (Fault.shift first.size) := by
    simp only [closing?, following, hp, Option.map_map]
    rfl
  rw [State.round, State.round]
  simp only [hs, hc, show ∀ steps, Controls.none.refusal? steps = none from fun _ => rfl]
  cases second.symbols[state.place]? with
  | none => cases state.closing? .live <;> rfl
  | some symbol =>
    simp only [decision_following hw hr hp]
    cases state.decision ⟨second.symbols, right, eof⟩ .live symbol with
    | error fault => rfl
    | ok action => exact congrArg Except.ok (perform_following hp symbol action)

end State

/-- A run of the second program is one of the whole, behind the first. -/
theorem runFrom_following {first second : Program} {right jumps : Jumps.Table} {earlier : State}
    (eof : EofPolicy) (state : State) (hw : (first.append second).jumps = .ok jumps)
    (hr : second.jumps = .ok right) (hp : earlier.place = first.size) (fuel : Nat) :
    runFrom ⟨(first.append second).symbols, jumps, eof⟩ .live Controls.none fuel
        (earlier.following state) =
      let ended := runFrom ⟨second.symbols, right, eof⟩ .live Controls.none fuel state
      (ended.1.shift first.size, earlier.following ended.2) := by
  induction fuel generalizing state with
  | zero => rfl
  | succ fuel ih =>
    have hround := State.round_following eof state hw hr hp
    cases hs : state.round ⟨second.symbols, right, eof⟩ .live Controls.none with
    | error outcome =>
      rw [hs] at hround
      rw [runFrom_succ_end fuel hs, runFrom_succ_end fuel hround]
    | ok next =>
      rw [hs] at hround
      rw [runFrom_succ_ok fuel hs, runFrom_succ_ok fuel hround, ih]

/-- The machine that goes on with another program where a run has left off. -/
def Result.goOn (result : Result) (program : Program) : Machine :=
  ⟨program, result.machine.tape, result.machine.eof, result.machine.console.fresh⟩

/-- What two runs come to, the second one taken as going on behind the first: it ends as the second
does, at a place behind the first program, with the tape and the input that the second leaves; the
emissions of the first come before those of the second, and the instructions of both count. -/
def Result.followedBy (before behind : Result) : Result where
  outcome := behind.outcome.shift before.machine.program.size
  machine :=
    ⟨before.machine.program.append behind.machine.program, behind.machine.tape, behind.machine.eof,
      behind.machine.console.prepend before.machine.console.emissions⟩
  steps := before.steps + behind.steps
  lines := before.lines ++ behind.lines

/-- A run that halts has come to the end of the program, by the instructions that it counts. -/
theorem exists_after_of_halted {machine : Machine} {jumps : Jumps.Table} {fuel : Nat}
    (hj : machine.program.jumps = .ok jumps)
    (h : (machine.run fuel .live Controls.none).outcome = .halted) :
    ∃ state, machine.start.after (machine.ready jumps) .live Controls.none state.steps =
        some state ∧
      state.place = machine.program.size ∧
      machine.run fuel .live Controls.none =
        ⟨.halted, machine.resumed state, state.steps, []⟩ := by
  obtain ⟨count, state, hc, ha, he⟩ := (outcome_run_eq_iff hj (by simp)).mp h
  have hsteps : state.steps = 0 + count := State.steps_of_after ha
  have hend : machine.program.symbols[state.place]? = none := (State.round_eq_halted_iff.mp he).1
  have hle : state.place ≤ machine.program.size :=
    State.place_le_of_after hj (Nat.zero_le machine.program.size) ha
  refine ⟨state, ?_, ?_, run_of_runFrom hj (runFrom_of_after ha he hc)⟩
  · rw [hsteps, Nat.zero_add, ha]
  · exact Nat.le_antisymm hle (Array.getElem?_eq_none_iff.mp hend)

/-- Two programs with balanced braces, of which the second does not begin with a digit, run one
behind the other as they do one after the other. If the first halts by itself, the whole comes with
any fuel to what the first and then the second come to, the second on the tape, the input and the
devices that the first has left. If the first does not end, neither does the whole. -/
theorem programs_run_in_sequence {first second : Program}
    (hfirst : Jumps.Balanced first.braceWord) (hsecond : Jumps.Balanced second.braceWord)
    (hd : ∀ value, second.symbols[0]? ≠ some (.digit value)) (tape : Tape) (eof : EofPolicy)
    (console : Console) :
    let alone : Machine := ⟨first, tape, eof, console⟩
    let whole : Machine := ⟨first.append second, tape, eof, console⟩
    (∀ fuel, (alone.run fuel .live Controls.none).outcome = .halted →
      let before := alone.run fuel .live Controls.none
      ∀ more, whole.run (before.steps + more) .live Controls.none =
        before.followedBy ((before.goOn second).run more .live Controls.none)) ∧
    ((∀ fuel, (alone.run fuel .live Controls.none).outcome = .unfinished) →
      ∀ fuel, (whole.run fuel .live Controls.none).outcome = .unfinished) := by
  intro alone whole
  have hdigit : Dump.digitAt? second.symbols 0 = none := by
    cases h : Dump.digitAt? second.symbols 0 with
    | none => rfl
    | some value =>
      obtain ⟨digit, hs⟩ := Dump.digitAt?_eq_some h
      exact absurd hs (hd digit)
  obtain ⟨left, hl⟩ := first.exists_jumps_iff.mpr hfirst
  obtain ⟨right, hr⟩ := second.exists_jumps_iff.mpr hsecond
  obtain ⟨jumps, hw⟩ : ∃ jumps, (first.append second).jumps = .ok jumps := by
    rw [Program.exists_jumps_iff, Program.braceWord_append]
    exact hfirst.append hsecond
  have hj : whole.program.jumps = .ok jumps := hw
  constructor
  · intro fuel hhalted before more
    obtain ⟨earlier, ha, hp, hbefore⟩ := exists_after_of_halted hl hhalted
    rw [show before = _ from hbefore]
    let next : Machine := ⟨second, earlier.tape, eof, earlier.console.fresh⟩
    cases hrun : runFrom (next.ready right) .live Controls.none more next.start with
    | mk outcome final =>
    have hbehind := runFrom_following eof earlier.takeover hw hr hp more
    rw [State.following_takeover, show runFrom ⟨second.symbols, right, eof⟩ .live Controls.none more
      earlier.takeover = (outcome, final) from hrun] at hbehind
    have hwhole : runFrom (whole.ready jumps) .live Controls.none (earlier.steps + more)
        whole.start = (outcome.shift first.size, earlier.following final) :=
      (runFrom_add_of_after more (State.after_append_left hw hl hdigit ha)).trans hbehind
    rw [run_of_runFrom hj hwhole]
    show _ = Result.followedBy _ (next.run more .live Controls.none)
    rw [run_of_runFrom hr hrun]
    rfl
  · intro hnever fuel
    cases hrun : runFrom (alone.ready left) .live Controls.none fuel alone.start with
    | mk outcome final =>
    have hend := hnever fuel
    rw [run_of_runFrom hl hrun] at hend
    rcases runFrom_eq_iff.mp hrun with ⟨-, ha⟩ | ⟨count, -, -, he⟩
    · have hlong : whole.start.after (whole.ready jumps) .live Controls.none fuel = some final :=
        State.after_append_left hw hl hdigit ha
      rw [run_of_runFrom hj (runFrom_eq_iff.mpr (.inl ⟨rfl, hlong⟩))]
    · rw [show outcome = .unfinished from hend] at he
      exact absurd he State.round_ne_unfinished

/-- A program that counts down to zero and ends with a dump is followed by one that reads, emits and
runs off the tape: the dump is carried out as before, and the place of the failure is counted from
the start of the whole. Nothing is ever executed behind a loop without an end. -/
theorem programs_run_in_sequence_dump_at_seam :
    let first : Program :=
      ⟨#[.increment, .brace .opening, .decrement, .brace .closing, .star, .digit 0, .caret,
        .digit 0]⟩
    let second : Program := ⟨#[.input, .output, .left]⟩
    let endless : Program := ⟨#[.increment, .brace .opening, .brace .closing]⟩
    let tape : Tape := ⟨#[0], 0⟩
    (Jumps.Balanced first.braceWord ∧ Jumps.Balanced second.braceWord ∧
        Jumps.Balanced endless.braceWord ∧
        ∀ value, second.symbols[0]? ≠ some (.digit value)) ∧
      ((⟨first, tape, .zero, Console.ofInput [7]⟩ : Machine).run 6 .live Controls.none =
        ⟨.halted, ⟨first, tape, .zero, ⟨[7], #[[0]], none, none, 0⟩⟩, 5, []⟩ ∧
      (⟨first.append second, tape, .zero, Console.ofInput [7]⟩ : Machine).run (5 + 3) .live
          Controls.none =
        ⟨.failed (.cursorOutOfBounds 10 0 .left),
          ⟨first.append second, ⟨#[7], 0⟩, .zero, ⟨[], #[[0], [7]], none, none, 0⟩⟩, 7, []⟩) ∧
      ∀ fuel, ((⟨endless.append second, tape, .zero, Console.ofInput []⟩ : Machine).run fuel .live
        Controls.none).outcome = .unfinished := by
  intro first second endless tape
  have hf : Jumps.Balanced first.braceWord := first.exists_jumps_iff.mp ⟨_, rfl⟩
  have hs : Jumps.Balanced second.braceWord := second.exists_jumps_iff.mp ⟨_, rfl⟩
  have he : Jumps.Balanced endless.braceWord := endless.exists_jumps_iff.mp ⟨_, rfl⟩
  have hd : ∀ value, second.symbols[0]? ≠ some (.digit value) := by simp [second]
  have hrun : (⟨first, tape, .zero, Console.ofInput [7]⟩ : Machine).run 6 .live Controls.none =
      ⟨.halted, ⟨first, tape, .zero, ⟨[7], #[[0]], none, none, 0⟩⟩, 5, []⟩ := rfl
  refine ⟨⟨hf, hs, he, hd⟩, ⟨hrun, ?_⟩, ?_⟩
  · have hwhole := (programs_run_in_sequence hf hs hd tape .zero (Console.ofInput [7])).1 6
    simp only [hrun] at hwhole
    exact hwhole trivial 3
  · refine (programs_run_in_sequence he hs hd tape .zero (Console.ofInput [])).2 fun fuel => ?_
    -- from the third round on every round is a jump back to the closing brace itself
    have hloop (count : Nat) : ∀ steps, (runFrom ⟨endless.symbols, #[none, some 2, some 1], .zero⟩
        .live Controls.none count ⟨⟨#[1], 0⟩, 2, steps, Console.ofInput [], #[]⟩).1 =
          .unfinished := by
      induction count with
      | zero => exact fun _ => rfl
      | succ count ih => exact fun steps => ih (steps + 1)
    match fuel with
    | 0 | 1 => rfl
    | count + 2 => exact hloop count 2

end Machine

end ScrewLang
