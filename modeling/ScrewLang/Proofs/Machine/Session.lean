import ScrewLang.Proofs.Machine.Plans
import ScrewLang.Proofs.Program.TextForm

/-!
# Sessions on one machine

A machine is run again and again, and input arrives in between; a run may halt, fail or be left
unfinished. Throughout, the tape keeps the length it was made with, the cursor stays on it, and the
next instruction stays inside the text form of the program, terminator included. So a run halts
exactly on the terminator, and a move fails exactly where it would leave the tape.
-/

namespace ScrewLang

namespace Machine

/-- What can happen to a machine. -/
inductive Event where
  /-- More input is queued. -/
  | receive (input : List UInt8)
  /-- The program is run, for as many rounds as there is fuel. -/
  | run (mode : Mode) (controls : Controls) (fuel : Nat)
deriving DecidableEq, Repr

/-- The machine after an event. -/
def handle (machine : Machine) : Event → Machine
  | .receive input => { machine with console := machine.console.enqueue input }
  | .run mode controls fuel => (machine.run fuel mode controls).machine

/-- The machine after a sequence of events. -/
def session (machine : Machine) (events : List Event) : Machine :=
  events.foldl handle machine

/-- A run of a machine comes to a state after `count` instructions. -/
def Reaches (machine : Machine) (mode : Mode) (controls : Controls) (count : Nat)
    (state : State) : Prop :=
  ∃ jumps, machine.program.jumps = .ok jumps ∧
    machine.start.after (machine.ready jumps) mode controls count = some state

namespace State

/-- The tape has the length asked for, the cursor lies on it, and the next instruction lies in the
text form of the program. -/
structure InBounds (program : Program) (cells : Nat) (state : State) : Prop where
  size : state.tape.size = max cells 1
  cursor : state.tape.cursor < state.tape.size
  place : state.place < program.length

/-- A symbol is executed next, and nothing cuts the run short before it. -/
def Dispatches (program : Program) (controls : Controls) (state : State) (symbol : Symbol) : Prop :=
  program.symbols[state.place]? = some symbol ∧ controls.refusal? state.steps = none

variable {program : Program} {cells : Nat} {jumps : Jumps.Table} {eof : EofPolicy} {mode : Mode}
  {controls : Controls} {state next final : State}

/-- One instruction keeps a state in bounds. -/
theorem InBounds.round (h : state.InBounds program cells) (hj : program.jumps = .ok jumps)
    (hr : state.round ⟨program.symbols, jumps, eof⟩ mode controls = .ok next) :
    next.InBounds program cells := by
  obtain ⟨symbol, action, hs, -, hd, rfl⟩ := round_eq_ok_iff.mp hr
  have ha := admissible_of_plan h.cursor (decision_eq_ok_iff.mp hd).1
  have hp : state.place < program.size := (Array.getElem?_eq_some_iff.mp hs).1
  obtain ⟨byte?, ht⟩ := tape_perform ⟨program.symbols, jumps, eof⟩ mode state symbol action
  refine ⟨?_, ?_, ?_⟩
  · rw [ht, Action.size_apply, h.size]
  · rw [ht, Action.size_apply]
    exact ha.cursor_apply_lt h.cursor eof byte?
  · rw [place_perform, Program.length]
    exact Nat.lt_succ_of_le (ha.next_le hj hp)

/-- A whole run keeps every state in bounds. -/
theorem InBounds.after {count : Nat} (h : state.InBounds program cells)
    (hj : program.jumps = .ok jumps)
    (ha : state.after ⟨program.symbols, jumps, eof⟩ mode controls count = some final) :
    final.InBounds program cells :=
  after_induction ha h fun _ _ hs hr => hs.round hj hr

/-- In bounds, only the terminator is no symbol. -/
theorem InBounds.getElem?_eq_none_iff (h : state.InBounds program cells) :
    program.symbols[state.place]? = none ↔
      program.glyphs[state.place]? = some Program.endGlyph := by
  have hp := h.place
  rw [Program.length, Program.size] at hp
  rw [Array.getElem?_eq_none_iff, Program.glyphs]
  constructor
  · intro hn
    have he : state.place = program.symbols.size := by omega
    rw [he, List.getElem?_append_right (by simp)]
    simp
  · intro hg
    refine Nat.le_of_not_lt fun hl => ?_
    rw [List.getElem?_append_left (by simpa using hl), List.getElem?_map] at hg
    cases hs : program.symbols.toList[state.place]? with
    | none => simp [hs] at hg
    | some symbol =>
      rw [hs] at hg
      exact symbol.glyph_ne_endGlyph (Option.some.inj hg)

end State

variable {program : Program} {cells : Nat} {eof : EofPolicy} {console : Console} {mode : Mode}
  {controls : Controls}

/-- What no event changes in a machine, with its cursor on the tape. -/
structure Keeps (origin machine : Machine) : Prop where
  program : machine.program = origin.program
  eof : machine.eof = origin.eof
  size : machine.tape.size = origin.tape.size
  cursor : machine.tape.cursor < machine.tape.size
  outputFault : machine.console.outputFault = origin.console.outputFault

theorem keeps_fresh (program : Program) (cells : Nat) (eof : EofPolicy) (console : Console) :
    (fresh program cells eof console).Keeps (fresh program cells eof console) :=
  ⟨rfl, rfl, rfl, Tape.wellFormed_blank cells, rfl⟩

/-- A run of a fresh machine's descendant begins in bounds. -/
theorem Keeps.inBounds_start {machine : Machine}
    (h : (fresh program cells eof console).Keeps machine) :
    machine.start.InBounds program cells where
  size := h.size.trans (Tape.size_blank cells)
  cursor := h.cursor
  place := Nat.succ_pos program.size

/-- Every state that such a run comes to is in bounds. -/
theorem Keeps.inBounds {machine : Machine} {count : Nat} {state : State}
    (h : (fresh program cells eof console).Keeps machine)
    (hr : machine.Reaches mode controls count state) : state.InBounds program cells := by
  obtain ⟨jumps, hj, ha⟩ := hr
  rw [ready, h.program] at ha
  rw [h.program] at hj
  exact h.inBounds_start.after hj ha

/-- Every state that such a run comes to has the output that the machine had at first. -/
theorem Keeps.outputFault_of_reaches {origin machine : Machine} {count : Nat} {state : State}
    (h : origin.Keeps machine) (hr : machine.Reaches mode controls count state) :
    state.console.outputFault = origin.console.outputFault := by
  obtain ⟨jumps, -, ha⟩ := hr
  exact (State.outputFault_of_after ha).trans h.outputFault

/-- A run is one of the events that keep a machine. -/
theorem Keeps.run {machine : Machine} (h : (fresh program cells eof console).Keeps machine)
    (fuel : Nat) (mode : Mode) (controls : Controls) :
    (fresh program cells eof console).Keeps (machine.run fuel mode controls).machine := by
  cases hj : machine.program.jumps with
  | error place =>
    rw [run_of_unmatched fuel mode controls hj]
    exact h
  | ok jumps =>
    obtain ⟨count, ha⟩ :=
      exists_after_runFrom (machine.ready jumps) mode controls fuel machine.start
    have hr : machine.Reaches mode controls count _ := ⟨jumps, hj, ha⟩
    rw [run_of_jumps fuel mode controls hj]
    exact ⟨h.program, h.eof, (h.inBounds hr).size.trans (Tape.size_blank cells).symm,
      (h.inBounds hr).cursor, h.outputFault_of_reaches hr⟩

/-- A whole session keeps a fresh machine. -/
theorem Keeps.session {machine : Machine} (h : (fresh program cells eof console).Keeps machine)
    (events : List Event) : (fresh program cells eof console).Keeps (machine.session events) := by
  induction events generalizing machine with
  | nil => exact h
  | cons event events ih =>
    refine ih ?_
    cases event with
    | receive input => exact ⟨h.program, h.eof, h.size, h.cursor, h.outputFault⟩
    | run mode controls fuel => exact h.run fuel mode controls

/-- In bounds, a move out of the tape is all that fails with the cursor out of bounds. -/
theorem State.InBounds.round_eq_cursorOutOfBounds_iff {state : State} {jumps : Jumps.Table}
    (h : state.InBounds program cells) {ip ptr : Nat} {op : Symbol} :
    state.round ⟨program.symbols, jumps, eof⟩ mode controls =
        .error (.failed (.cursorOutOfBounds ip ptr op)) ↔
      state.Dispatches program controls op ∧ ip = state.place ∧ ptr = state.tape.cursor ∧
        (op = .left ∧ ptr = 0 ∨ op = .right ∧ ptr + 1 = max cells 1) := by
  have hs := h.size
  have hc := h.cursor
  rw [State.round_eq_failed_iff]
  constructor
  · rintro (⟨-, hf⟩ | ⟨symbol, hp, hf | ⟨hr, hd⟩⟩)
    · obtain ⟨cause, hf⟩ := State.eq_of_closing? hf
      cases hf
    · obtain hf | ⟨limit, hf⟩ := Controls.eq_of_refusal? hf <;> cases hf
    · rcases State.decision_eq_error_iff.mp hd with hd | ⟨-, action, cause, -, -, hd⟩
      · obtain ⟨rfl, rfl, rfl, hm⟩ := plan_eq_cursorOutOfBounds_iff.mp hd
        refine ⟨⟨hp, hr⟩, rfl, rfl, hm.imp_right fun hm => ⟨hm.1, ?_⟩⟩
        omega
      · cases hd
  · rintro ⟨⟨hp, hr⟩, rfl, rfl, hm⟩
    refine .inr ⟨op, hp, .inr ⟨hr, State.decision_eq_error_iff.mpr (.inl ?_)⟩⟩
    refine plan_eq_cursorOutOfBounds_iff.mpr ⟨rfl, rfl, rfl, hm.imp_right fun hm => ⟨hm.1, ?_⟩⟩
    omega

/-- How a run ends, told by a property of the states that it comes to. -/
theorem outcome_run_iff_reaches {machine : Machine} {fuel : Nat} {outcome : Outcome}
    {ends : State → Prop} (hu : outcome ≠ .unfinished)
    (hb : ∀ place, outcome ≠ .failed (.unmatchedBrace place))
    (h : ∀ jumps count state, machine.program.jumps = .ok jumps →
      machine.Reaches mode controls count state →
      (state.round (machine.ready jumps) mode controls = .error outcome ↔ ends state)) :
    (machine.run fuel mode controls).outcome = outcome ↔
      ∃ count state, count < fuel ∧ machine.Reaches mode controls count state ∧ ends state := by
  cases hj : machine.program.jumps with
  | error place =>
    rw [run_of_unmatched fuel mode controls hj]
    constructor
    · exact fun ho => absurd ho.symm (hb place)
    · rintro ⟨count, state, -, ⟨jumps, hk, -⟩, -⟩
      rw [hj] at hk
      cases hk
  | ok jumps =>
    rw [outcome_run_eq_iff hj hu]
    constructor
    · rintro ⟨count, state, hc, ha, he⟩
      have hr : machine.Reaches mode controls count state := ⟨jumps, hj, ha⟩
      exact ⟨count, state, hc, hr, (h jumps count state hj hr).mp he⟩
    · rintro ⟨count, state, hc, hr, he⟩
      have hround := (h jumps count state hj hr).mpr he
      obtain ⟨other, hk, ha⟩ := hr
      rw [hj] at hk
      cases hk
      exact ⟨count, state, hc, ha, hround⟩

/-- Throughout a session the tape keeps its length, the cursor stays on it and every run stays
inside the program; dumps name cells of the tape; a run halts exactly when it comes to the
terminator with nothing left to flush; and it fails with the cursor out of bounds exactly when it
dispatches a move that would leave the tape. -/
theorem session_in_bounds (program : Program) (cells : Nat) (eof : EofPolicy) (console : Console)
    (events : List Event) :
    let machine := (fresh program cells eof console).session events
    (machine.tape.size = max cells 1 ∧ machine.tape.cursor < machine.tape.size) ∧
      ∀ mode controls,
        (∀ count state, machine.Reaches mode controls count state →
          state.InBounds program cells ∧
          (∀ range, Dump.parse program.symbols state.place state.tape.size = .ok range →
            range.lower ≤ range.upper ∧ range.upper < state.tape.size ∧
              state.place + Dump.width < program.length) ∧
          (console.outputFault = none → state.closing? mode = none)) ∧
        (∀ fuel, (machine.run fuel mode controls).outcome = .halted ↔
          ∃ count state, count < fuel ∧ machine.Reaches mode controls count state ∧
            program.glyphs[state.place]? = some Program.endGlyph ∧ state.closing? mode = none) ∧
        ∀ fuel ip ptr op,
          (machine.run fuel mode controls).outcome = .failed (.cursorOutOfBounds ip ptr op) ↔
            ∃ count state, count < fuel ∧ machine.Reaches mode controls count state ∧
              state.Dispatches program controls op ∧ ip = state.place ∧ ptr = state.tape.cursor ∧
              (op = .left ∧ ptr = 0 ∨ op = .right ∧ ptr + 1 = max cells 1) := by
  intro machine
  have hk : (fresh program cells eof console).Keeps machine :=
    (keeps_fresh program cells eof console).session events
  refine ⟨⟨hk.size.trans (Tape.size_blank cells), hk.cursor⟩, fun mode controls => ⟨?_, ?_, ?_⟩⟩
  · intro count state hr
    refine ⟨hk.inBounds hr, fun range hp => ?_, fun ho => ?_⟩
    · obtain ⟨hl, hu⟩ := Dump.parse_bounds hp
      exact ⟨hl, hu, Nat.lt_succ_of_le (Dump.parse_width_le hp)⟩
    · exact State.closing?_eq_none mode ((hk.outputFault_of_reaches hr).trans ho)
  · intro fuel
    refine outcome_run_iff_reaches (by simp) (by simp) fun jumps count state hj hr => ?_
    rw [State.round_eq_halted_iff, ready, hk.program]
    exact and_congr_left' (hk.inBounds hr).getElem?_eq_none_iff
  · intro fuel ip ptr op
    refine outcome_run_iff_reaches (by simp) (by simp) fun jumps count state hj hr => ?_
    rw [ready, hk.program]
    exact (hk.inBounds hr).round_eq_cursorOutOfBounds_iff

/-- A second run, of a program whose first run was left after a dump, fails at the last cell. -/
theorem session_in_bounds_second_run :
    let program : Program := ⟨#[.star, .digit 0, .caret, .digit 1, .right, .right]⟩
    let machine := (fresh program 2 .zero (Console.ofInput [])).session
      [.run .live Controls.none 1, .receive [7]]
    let state : State := ⟨⟨#[0, 0], 1⟩, 5, 2, ⟨[7], #[[0, 0], [0, 0]], none, none, 0⟩, #[]⟩
    machine.Reaches .live Controls.none 0 machine.start ∧
      Dump.parse program.symbols machine.start.place machine.start.tape.size = .ok ⟨0, 1⟩ ∧
      machine.start.place + Dump.width < program.length ∧
      machine.Reaches .live Controls.none 2 state ∧ state.InBounds program 2 ∧
      state.closing? .live = none ∧
      (machine.run 3 .live Controls.none).outcome = .failed (.cursorOutOfBounds 5 1 .right) := by
  intro program machine state
  have hz : machine.Reaches .live Controls.none 0 machine.start :=
    ⟨Array.replicate 6 none, rfl, rfl⟩
  have hr : machine.Reaches .live Controls.none 2 state := ⟨Array.replicate 6 none, rfl, rfl⟩
  obtain ⟨-, hs⟩ := session_in_bounds program 2 .zero (Console.ofInput [])
    [.run .live Controls.none 1, .receive [7]]
  obtain ⟨hstate, -, hbounds⟩ := hs .live Controls.none
  obtain ⟨hin, -, hclosing⟩ := hstate 2 state hr
  refine ⟨hz, rfl, ((hstate 0 _ hz).2.1 ⟨0, 1⟩ rfl).2.2, hr, hin, hclosing rfl, ?_⟩
  exact (hbounds 3 5 1 .right).mpr ⟨2, state, by decide, hr, ⟨rfl, rfl⟩, rfl, rfl, .inr ⟨rfl, rfl⟩⟩

end Machine

end ScrewLang
