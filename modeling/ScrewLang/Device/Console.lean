import ScrewLang.Device.Fault
import ScrewLang.Source.Location

/-!
# The console of a running program

A program reads bytes from a queue and emits byte strings, one for every output instruction. Both
sides may be broken. A broken input refuses every read. A broken output is noticed late, because
output is held in a line buffer: a refusal comes when the buffer has to be written out, that is at a
newline, when the buffer is full, before a read and when the program ends.
Spec guidance: `SPEC_FULL.md` §5 and §16, component `machine`: `emit`, `read_byte`.
-/

namespace ScrewLang

/-- Input still to be read, output made so far, and the faults of the devices behind them. -/
structure Console where
  /-- The bytes not read yet. -/
  input : List UInt8
  /-- What the output instructions have emitted, oldest first. -/
  emissions : Array (List UInt8)
  /-- The answer of a broken input to every read. -/
  inputFault : Option Device.Fault
  /-- The answer of a broken output to every write of the buffer. -/
  outputFault : Option Device.Fault
  /-- How many bytes a broken output has in its buffer. -/
  held : Nat
deriving DecidableEq, Repr

namespace Console

/-- How many bytes the output buffer holds. -/
def bufferSize : Nat := 1024

/-- A console with working devices and some input queued. -/
def ofInput (input : List UInt8) : Console :=
  ⟨input, #[], none, none, 0⟩

/-- Whether both devices of a console work. -/
def Working (console : Console) : Prop :=
  console.inputFault = none ∧ console.outputFault = none

/-- The fault with which flushing the output fails, if it does. -/
def flushRefusal? (console : Console) : Option Device.Fault :=
  if console.held = 0 then none else console.outputFault

/-- The fault with which a read fails, if it does. Output held back is flushed first. -/
def readRefusal? (console : Console) : Option Device.Fault :=
  console.flushRefusal? <|> console.inputFault

/-- The fault with which emitting some bytes fails, if it does. -/
def emitRefusal? (console : Console) (output : List UInt8) : Option Device.Fault :=
  if output.contains newline ∨ bufferSize < console.held + output.length then console.outputFault
  else none

/-- Emit some bytes. -/
def emit (console : Console) (output : List UInt8) : Console :=
  match console with
  | ⟨input, emissions, inputFault, outputFault, held⟩ =>
    ⟨input, emissions.push output, inputFault, outputFault,
      if outputFault.isSome then held + output.length else held⟩

/-- The next input byte, or `none` at the end of the input, and the console after reading it. -/
def read (console : Console) : Option UInt8 × Console :=
  match console.input with
  | [] => (none, console)
  | b :: rest => (some b, { console with input := rest })

/-- Queue some more input behind what is left. -/
def enqueue (console : Console) (more : List UInt8) : Console :=
  { console with input := console.input ++ more }

/-- All bytes emitted, in order. -/
def output (console : Console) : List UInt8 :=
  console.emissions.toList.flatten

end Console

end ScrewLang
