import ScrewLang.Command.Invocation
import ScrewLang.Command.Usage
import ScrewLang.Command.World
import ScrewLang.Machine.Run
import ScrewLang.Report.Message

/-!
# Running and checking programs

Both commands load a file and compile it. Checking stops there; running goes on with a fresh machine
under the limits that the command line, the environment and the settings give.
Spec guidance: `SPEC_FULL.md` §12 and §15, component `commands`.
-/

namespace ScrewLang

namespace Command

/-- Why a file is not a program that can be run. -/
inductive LoadFault where
  | source (fault : SourceFile.Fault)
  | validation (text : String) (fault : Validation.Fault)
deriving DecidableEq, Repr

/-- Load and compile a file. -/
def load (world : World) (path : String) : Except LoadFault Program :=
  match SourceFile.load world.read path with
  | .error fault => .error (.source fault)
  | .ok text =>
    match Program.compile (Text.bytes text) with
    | .error fault => .error (.validation text fault)
    | .ok program => .ok program

/-- The end of a command whose file is no program. -/
def loadExit (world : World) (fault : LoadFault) : Exit :=
  ⟨Exit.badSource, [],
    match fault with
    | .source fault => Report.sourceFault world.style (some world.program) fault
    | .validation text fault => Report.validationFault world.style (some world.program) text fault⟩

/-- The end of a command line that makes no sense. -/
def usageExit (world : World) : Exit :=
  ⟨Exit.badUsage, [], Usage.hint world.style world.program⟩

/-- What reaches standard output. Nothing does if it is broken. -/
def delivered (world : World) (output : List UInt8) : List UInt8 :=
  if world.outputFault.isSome then [] else output

/-- The rounds that a run gets under a time limit, or under none. -/
def fuel (world : World) (timeout : Option Nat) : Nat :=
  match timeout with
  | some ms => ms * world.pace
  | none => world.patience

/-- What is printed about a run, and the exit status it leads to. -/
def verdict (world : World) (program : Program) (timeout : Option Nat) :
    Machine.Outcome → UInt8 × String
  | .halted => (Exit.success, "")
  | .unfinished =>
    match timeout with
    | some ms =>
      (Exit.badRun,
        "Execution aborted: wall-clock timeout exceeded (" ++ Nat.repr ms ++ " ms)\n")
    | none => (Exit.badRun, Machine.Fault.canceled.message ++ "\n")
  | .failed fault =>
    (Exit.badRun, Report.machineFault world.style (some world.program) program fault)

/-- The step limit of a run. -/
def stepLimit (world : World) (request : RunRequest) : Option Nat :=
  Limit.pick request.maxSteps (world.environment "SCREW_MAX_STEPS") world.settings.maxSteps

/-- The time limit of a run, in milliseconds. -/
def timeLimit (world : World) (request : RunRequest) : Option Nat :=
  Limit.pick request.timeout (world.environment "SCREW_TIMEOUT_MS") world.settings.timeout

/-- Run a program, or rehearse it and print the trace. -/
def execute (world : World) (request : RunRequest) (program : Program) : Exit :=
  let settings := world.settings
  let timeout := timeLimit world request
  let machine := Machine.fresh program settings.cells settings.eof world.console
  let mode := if request.debug then Machine.Mode.rehearsal else .live
  let result := machine.run (fuel world timeout) mode ⟨stepLimit world request, false⟩
  let (code, complaint) := verdict world program timeout result.outcome
  ⟨code,
    delivered world (Text.bytes (Usage.block result.lines) ++ result.machine.console.output),
    complaint⟩

/-- Run the program in a file. -/
def run (world : World) (request : RunRequest) : Exit :=
  match request.file with
  | none => usageExit world
  | some path =>
    match load world path with
    | .error fault => loadExit world fault
    | .ok program => execute world request program

/-- Check the program in a file. -/
def check (world : World) (file : Option String) : Exit :=
  match file with
  | none => ⟨Exit.badUsage, [], Usage.check world.program⟩
  | some path =>
    match load world path with
    | .error fault => loadExit world fault
    | .ok program =>
      ⟨Exit.success,
        delivered world
          (Text.bytes (path ++ ": ok (" ++ Nat.repr program.size ++ " instructions)\n")),
        ""⟩

end Command

end ScrewLang
