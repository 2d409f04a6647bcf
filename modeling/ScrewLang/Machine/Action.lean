import ScrewLang.Device.Console
import ScrewLang.Machine.EofPolicy
import ScrewLang.Machine.Fault
import ScrewLang.Machine.Tape

/-!
# What an instruction does

An instruction is executed in two parts. First it is decided what it is to do here: the result is an
action or a fault, and nothing has changed yet. Then the action is carried out, which cannot fail.
So a failing instruction has no effect, and a rehearsal takes the same decisions as a real run.
Spec guidance: `SPEC_FULL.md` §4.3 and §11, component `machine`.
-/

namespace ScrewLang

namespace Machine

/-- A program made ready to run: its symbols, their jump table, and the policy for the end of the
input. -/
structure Image where
  symbols : Array Symbol
  jumps : Jumps.Table
  eof : EofPolicy
deriving DecidableEq, Repr

/-- What an instruction does in the state in which it is met. -/
inductive Action where
  /-- Put the cursor on the cell `target`. -/
  | move (target : Nat)
  /-- Add one to the current cell. -/
  | increment
  /-- Subtract one from the current cell. -/
  | decrement
  /-- Emit the current cell. -/
  | emit
  /-- Read a byte into the current cell. -/
  | read
  /-- Go on after the closing brace at `partner`. -/
  | skip (partner : Nat)
  /-- Go on with the body of a loop. -/
  | enter
  /-- Go on after the opening brace at `partner`. -/
  | loop (partner : Nat)
  /-- Go on after a loop. -/
  | leave
  /-- Emit the cells in a range and clear them. -/
  | dump (range : Dump.Range)
deriving DecidableEq, Repr

/-- Decide what the symbol met at `place` does to a tape. These are the checks of `execute`, one
case for each instruction. -/
def plan (image : Image) (tape : Tape) (place : Nat) (symbol : Symbol) : Except Fault Action :=
  match symbol with
  | .right =>
    if tape.cursor + 1 < tape.size then .ok (.move (tape.cursor + 1))
    else .error (.cursorOutOfBounds place tape.cursor symbol)
  | .left =>
    if 0 < tape.cursor then .ok (.move (tape.cursor - 1))
    else .error (.cursorOutOfBounds place tape.cursor symbol)
  | .increment => .ok .increment
  | .decrement => .ok .decrement
  | .output => .ok .emit
  | .input => .ok .read
  | .brace .opening =>
    if tape.get = 0 then
      match image.jumps.getD place none with
      | some partner => .ok (.skip partner)
      | none => .error (.unmatchedBrace place)
    else .ok .enter
  | .brace .closing =>
    if tape.get = 0 then .ok .leave
    else
      match image.jumps.getD place none with
      | some partner => .ok (.loop partner)
      | none => .error (.unmatchedBrace place)
  | .star =>
    match Dump.parse image.symbols place tape.size with
    | .ok range => .ok (.dump range)
    | .error cause => .error (.dump place cause)
  | .caret => .error (.unknownSymbol place symbol)
  | .digit _ => .error (.unknownSymbol place symbol)

namespace Action

/-- The fault with which the console refuses an action, if it does. Follows `emit` and
`read_byte`. -/
def refusal? (action : Action) (tape : Tape) (console : Console) : Option Device.Fault :=
  match action with
  | .read => console.readRefusal?
  | .emit => console.emitRefusal? [tape.get.toUInt8]
  | .dump range => console.emitRefusal? (tape.bytes range)
  | _ => none

/-- What an action does to the console: the byte it reads, if it reads one, and the console after
it. -/
def converse (action : Action) (tape : Tape) (console : Console) : Option UInt8 × Console :=
  match action with
  | .read => console.read
  | .emit => (none, console.emit [tape.get.toUInt8])
  | .dump range => (none, console.emit (tape.bytes range))
  | _ => (none, console)

/-- What an action does to the tape, given the byte it has read, if it has read one. -/
def apply (action : Action) (eof : EofPolicy) (byte? : Option UInt8) (tape : Tape) : Tape :=
  match action with
  | .move target => tape.seek target
  | .increment => tape.modify (· + 1)
  | .decrement => tape.modify (· - 1)
  | .read =>
    tape.modify fun cell =>
      match byte? with
      | some b => b.toInt8
      | none => eof.apply cell
  | .dump range => tape.clear range
  | .emit => tape
  | .skip _ => tape
  | .enter => tape
  | .loop _ => tape
  | .leave => tape

/-- Where execution goes on after an action taken at `place`. -/
def next (action : Action) (place : Nat) : Nat :=
  match action with
  | .skip partner => partner + 1
  | .loop partner => partner + 1
  | .dump _ => place + Dump.width
  | _ => place + 1

end Action

end Machine

end ScrewLang
