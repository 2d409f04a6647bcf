import ScrewLang.Machine.Run
import ScrewLang.Repl.Submission
import ScrewLang.Report.Message

/-!
# Interactive sessions

Every submission is compiled and run on a fresh tape. Its output is followed by a newline, whatever
became of it, and its fault is reported apart.
Spec guidance: `SPEC_FULL.md` §18, component `repl`.
-/

namespace ScrewLang

namespace Repl

/-- What a submission prints, the console after it, and how its run ended, if it was run. -/
structure Reply where
  stdout : List UInt8
  stderr : String
  console : Console
  outcome? : Option Machine.Outcome
deriving DecidableEq, Repr

/-- Whether a program came to a read of an input that is held by the session itself. Such a read
never returns. -/
def Reply.stalled (reply : Reply) : Bool :=
  match reply.outcome? with
  | some (.failed (.device _ .deadlock)) => true
  | _ => false

/-- Compile and run one submission. Follows `execute_buffer`. -/
def execute (fuel : Nat) (style : Report.Style) (settings : Settings) (console : Console)
    (submission : String) : Reply :=
  let source := Submission.terminate submission
  match Program.compile (Text.bytes source) with
  | .error fault => ⟨[newline], Report.validationFault style none source fault, console, none⟩
  | .ok program =>
    let machine := Machine.fresh program settings.cells settings.eof
      { console with emissions := #[] }
    let result := machine.run fuel .live ⟨settings.maxSteps, false⟩
    let complaint :=
      match result.outcome with
      | .failed fault => Report.machineFault style none program fault
      | .halted => ""
      | .unfinished => ""
    ⟨result.machine.console.output ++ [newline], complaint, result.machine.console,
      some result.outcome⟩

/-- The replies to the submissions of a session that count, up to and including the first one if the
session ends after it. Follows `repl_loop`. -/
def replies (fuel : Nat) (style : Report.Style) (settings : Settings) (once : Bool) :
    Console → List String → List Reply
  | _, [] => []
  | console, submission :: rest =>
    if Submission.isBlank submission then replies fuel style settings once console rest
    else
      let reply := execute fuel style settings console submission
      if once then [reply] else reply :: replies fuel style settings once reply.console rest

/-- Everything that a session in the editor prints. A session that does not end after its first
submission ends with a newline. -/
def session (fuel : Nat) (style : Report.Style) (settings : Settings) (once : Bool)
    (console : Console) (submissions : List String) : List UInt8 × String :=
  let given := replies fuel style settings once console submissions
  let closing := if once ∧ given ≠ [] then [] else [newline]
  ((given.map Reply.stdout).flatten ++ closing, String.join (given.map Reply.stderr))

/-- Everything that a session without an editor prints: its whole input is one submission. The
session holds its input while the program runs. So a program that comes to a read waits until the
session is interrupted, and nothing is printed after what it has emitted. Follows
`execute_bare_once`. -/
def bare (fuel : Nat) (style : Report.Style) (settings : Settings) (console : Console)
    (input : List UInt8) : List UInt8 × String :=
  match Submission.ofInput? input with
  | none => ([], "")
  | some submission =>
    if Submission.isBlank submission then ([], "")
    else
      let held : Console := { console with inputFault := some .deadlock }
      let reply := execute fuel style settings held submission
      if reply.stalled then (reply.console.output, "") else (reply.stdout, reply.stderr)

end Repl

end ScrewLang
