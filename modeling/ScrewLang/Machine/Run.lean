import ScrewLang.Machine.Trace

/-!
# Runs of a machine

A machine keeps its tape and its console from one run to the next; every run starts at the first
instruction. A run goes on until the program ends, an instruction fails, or it is cut short: by a
cancellation, by a step limit, or because its fuel is spent. Fuel bounds the number of rounds, so the
functions here are total; a run that ends at all ends in the same way under any larger amount.
Spec guidance: `SPEC_FULL.md` §4.3 and §16, component `machine`.
-/

namespace ScrewLang

namespace Machine

/-- Whether output and input are real, or only told in a trace. -/
inductive Mode where
  | live
  | rehearsal
deriving DecidableEq, Repr

/-- What can cut a run short from outside. Follows `StepControl`. -/
structure Controls where
  /-- The greatest number of instructions carried out. -/
  limit : Option Nat
  /-- Whether the run has been canceled. -/
  canceled : Bool
deriving DecidableEq, Repr

namespace Controls

/-- Nothing cuts the run short. -/
def none : Controls := ⟨.none, false⟩

/-- The fault with which a run is cut short before its next instruction, if it is. A cancellation
comes before the limit. -/
def refusal? (controls : Controls) (steps : Nat) : Option Fault :=
  if controls.canceled then some .canceled
  else
    match controls.limit with
    | some limit => if limit ≤ steps then some (.stepLimit limit) else .none
    | .none => .none

end Controls

/-- A run between two instructions. -/
structure State where
  tape : Tape
  /-- The index of the next instruction. -/
  place : Nat
  /-- How many instructions have been carried out. -/
  steps : Nat
  console : Console
  /-- The rows of the trace. -/
  rows : Array Row
deriving DecidableEq, Repr

namespace State

/-- Decide what the symbol at the current place does. Follows `execute` up to its first effect. -/
def decision (image : Image) (mode : Mode) (state : State) (symbol : Symbol) : Except Fault Action :=
  match plan image state.tape state.place symbol with
  | .error fault => .error fault
  | .ok action =>
    match mode with
    | .rehearsal => .ok action
    | .live =>
      match action.refusal? state.tape state.console with
      | some cause => .error (.device state.place cause)
      | none => .ok action

/-- The row that shows an action taken in a state. -/
def row (image : Image) (state : State) (symbol : Symbol) (action : Action) : Row :=
  ⟨state.steps, state.place, state.tape.cursor, state.tape.get, symbol,
    action.describe image.eof state.tape⟩

/-- Carry an action out. A rehearsal leaves the console alone: every read meets the end of the
input. -/
def perform (image : Image) (mode : Mode) (state : State) (symbol : Symbol) (action : Action) :
    State :=
  match mode with
  | .live =>
    match state with
    | ⟨tape, place, steps, console, rows⟩ =>
      match action.converse tape console with
      | (byte?, console) =>
        ⟨action.apply image.eof byte? tape, action.next place, steps + 1, console, rows⟩
  | .rehearsal =>
    let shown := state.row image symbol action
    match state with
    | ⟨tape, place, steps, console, rows⟩ =>
      ⟨action.apply image.eof none tape, action.next place, steps + 1, console, rows.push shown⟩

/-- The fault with which the end of a program fails, if it does: output still held back is
flushed. -/
def closing? (mode : Mode) (state : State) : Option Fault :=
  match mode with
  | .live => state.console.flushRefusal?.map (.device state.place)
  | .rehearsal => none

end State

/-- How a run ended. -/
inductive Outcome where
  | halted
  | failed (fault : Fault)
  | unfinished
deriving DecidableEq, Repr

/-- Run from a state, for as many rounds as there is fuel. This is the loop of `execute`. -/
def runFrom (image : Image) (mode : Mode) (controls : Controls) :
    (fuel : Nat) → State → Outcome × State
  | 0, state => (.unfinished, state)
  | fuel + 1, state =>
    match image.symbols[state.place]? with
    | none =>
      match state.closing? mode with
      | some fault => (.failed fault, state)
      | none => (.halted, state)
    | some symbol =>
      match controls.refusal? state.steps with
      | some fault => (.failed fault, state)
      | none =>
        match state.decision image mode symbol with
        | .error fault => (.failed fault, state)
        | .ok action => runFrom image mode controls fuel (state.perform image mode symbol action)

end Machine

/-- A program with the tape and the console it works on. -/
structure Machine where
  program : Program
  tape : Tape
  eof : EofPolicy
  console : Console
deriving DecidableEq, Repr

namespace Machine

/-- A machine with a blank tape. Follows `with_cells`. -/
def fresh (program : Program) (cells : Nat) (eof : EofPolicy) (console : Console) : Machine :=
  ⟨program, Tape.blank cells, eof, console⟩

/-- How a run ended, what it left, and the lines of its trace. -/
structure Result where
  outcome : Outcome
  machine : Machine
  steps : Nat
  lines : List String
deriving DecidableEq, Repr

/-- The lines that a run prints as its trace. -/
def listing (mode : Mode) (rows : Array Row) : List String :=
  match mode with
  | .live => []
  | .rehearsal => Row.header ++ rows.toList.map Row.render

/-- Run the program of a machine. A program with unbalanced braces fails before anything happens.
Follows `run_with_control` and `run_debug_with_control`. -/
def run (fuel : Nat) (mode : Mode) (controls : Controls) (machine : Machine) : Result :=
  match machine with
  | ⟨program, tape, eof, console⟩ =>
    match program.jumps with
    | .error place => ⟨.failed (.unmatchedBrace place), ⟨program, tape, eof, console⟩, 0, []⟩
    | .ok jumps =>
      match runFrom ⟨program.symbols, jumps, eof⟩ mode controls fuel ⟨tape, 0, 0, console, #[]⟩ with
      | (outcome, state) =>
        ⟨outcome, ⟨program, state.tape, eof, state.console⟩, state.steps, listing mode state.rows⟩

/-- Compile a source text and run it on a fresh machine with everything at its default. Follows
`interpret`. -/
def interpret (fuel : Nat) (console : Console) (source : List UInt8) :
    Except Validation.Fault Result := do
  let program ← Program.compile source
  return (fresh program Tape.defaultSize EofPolicy.default console).run fuel .live Controls.none

end Machine

end ScrewLang
