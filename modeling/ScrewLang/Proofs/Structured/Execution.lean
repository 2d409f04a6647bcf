import ScrewLang.Machine.Run
import ScrewLang.Proofs.Structured.Syntax

/-!
# Execution of a syntax tree

`Exec` says what a block does to a tape and a console, by its structure alone: no place is ever
jumped to. A loop repeats its body while the current cell is not zero. A block either comes to its
end or stops at a leaf that fails; a block for which nothing can be derived does not end. Places
only serve to name the leaf that failed.
-/

namespace ScrewLang

namespace Structured

/-- What a block works on. -/
structure Store where
  tape : Tape
  console : Console
deriving DecidableEq, Repr

namespace Store

/-- Emit some bytes, unless the console refuses them. -/
def emit (store : Store) (place : Nat) (output : List UInt8) : Except Machine.Fault Store :=
  match store.console.emitRefusal? output with
  | some cause => .error (.device place cause)
  | none => .ok ⟨store.tape, store.console.emit output⟩

/-- Read a byte into the current cell, unless the console refuses to. -/
def read (eof : EofPolicy) (store : Store) (place : Nat) : Except Machine.Fault Store :=
  match store.console.readRefusal? with
  | some cause => .error (.device place cause)
  | none =>
    match store.console.read with
    | (some b, console) => .ok ⟨store.tape.modify fun _ => b.toInt8, console⟩
    | (none, console) => .ok ⟨store.tape.modify eof.apply, console⟩

end Store

/-- Execute a leaf at a place. -/
def Leaf.exec (eof : EofPolicy) (place : Nat) (store : Store) : Leaf → Except Machine.Fault Store
  | .right =>
    if store.tape.cursor + 1 < store.tape.size then
      .ok ⟨store.tape.seek (store.tape.cursor + 1), store.console⟩
    else .error (.cursorOutOfBounds place store.tape.cursor .right)
  | .left =>
    if 0 < store.tape.cursor then .ok ⟨store.tape.seek (store.tape.cursor - 1), store.console⟩
    else .error (.cursorOutOfBounds place store.tape.cursor .left)
  | .increment => .ok ⟨store.tape.modify (· + 1), store.console⟩
  | .decrement => .ok ⟨store.tape.modify (· - 1), store.console⟩
  | .output => store.emit place [store.tape.get.toUInt8]
  | .input => store.read eof place
  | .dump lower upper =>
    if upper < lower then .error (.dump place (.inverted lower upper))
    else if store.tape.size ≤ upper then .error (.dump place (.outOfRange upper store.tape.size))
    else
      match store.emit place (store.tape.bytes ⟨lower, upper⟩) with
      | .error fault => .error fault
      | .ok shown => .ok ⟨shown.tape.clear ⟨lower, upper⟩, shown.console⟩
  | .malformed cause => .error (.dump place cause)
  | .stray symbol => .error (.unknownSymbol place symbol)

/-- Executed at a place, a block takes a store to another and comes to its end (`none`) or fails. -/
inductive Exec (eof : EofPolicy) : Nat → Block → Store → Option Machine.Fault → Store → Prop where
  /-- Nothing is left to do. -/
  | done {place : Nat} {store : Store} : Exec eof place .done store none store
  /-- A leaf is executed, then what follows it. -/
  | leaf {place : Nat} {first : Leaf} {rest : Block} {store next final : Store}
      {ending : Option Machine.Fault} (head : first.exec eof place store = .ok next)
      (tail : Exec eof (place + first.width) rest next ending final) :
      Exec eof place (.leaf first rest) store ending final
  /-- A leaf fails and changes nothing. -/
  | leafFails {place : Nat} {first : Leaf} {rest : Block} {store : Store} {fault : Machine.Fault}
      (head : first.exec eof place store = .error fault) :
      Exec eof place (.leaf first rest) store (some fault) store
  /-- On a zero a loop is skipped. -/
  | skip {place : Nat} {body rest : Block} {store final : Store} {ending : Option Machine.Fault}
      (zero : store.tape.get = 0)
      (tail : Exec eof (place + body.width + 2) rest store ending final) :
      Exec eof place (.loop body rest) store ending final
  /-- Otherwise its body is executed, and then the loop once more. -/
  | again {place : Nat} {body rest : Block} {store next final : Store}
      {ending : Option Machine.Fault} (nonzero : store.tape.get ≠ 0)
      (head : Exec eof (place + 1) body store none next)
      (tail : Exec eof place (.loop body rest) next ending final) :
      Exec eof place (.loop body rest) store ending final
  /-- A loop fails when its body does. -/
  | bodyFails {place : Nat} {body rest : Block} {store final : Store} {fault : Machine.Fault}
      (nonzero : store.tape.get ≠ 0) (head : Exec eof (place + 1) body store (some fault) final) :
      Exec eof place (.loop body rest) store (some fault) final

namespace Block

/-- How a program ends, given how its tree ended. At its end, output held back is flushed. -/
def outcome (block : Block) (ending : Option Machine.Fault) (final : Store) : Machine.Outcome :=
  match ending with
  | some fault => .failed fault
  | none =>
    match final.console.flushRefusal? with
    | some cause => .failed (.device block.width cause)
    | none => .halted

/-- Executed as a whole program, a block takes a store to another and ends in some way. -/
def Runs (eof : EofPolicy) (block : Block) (store : Store) (outcome : Machine.Outcome)
    (final : Store) : Prop :=
  ∃ ending, Exec eof 0 block store ending final ∧ outcome = block.outcome ending final

end Block

end Structured

end ScrewLang
