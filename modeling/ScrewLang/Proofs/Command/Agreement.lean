import ScrewLang.Command.Basic
import ScrewLang.Proofs.Machine.Rounds
import ScrewLang.Proofs.Repl.AddedTerminator
import ScrewLang.Proofs.Text.Decoding

/-!
# Checking, running and submitting a text

A text can be checked as a file, run as a file, and submitted in a session. Each of the three reads,
compiles and reports on its own account. For one and the same text they accept and reject alike, and
what a program emits reaches standard output in the same way from a file and from a submission.
-/

namespace ScrewLang

/-- A path names a source file with a text, standard output works, and nothing but a step limit in
the settings cuts a run short. -/
structure World.Offers (world : World) (path text : String) : Prop where
  named : SourceFile.checkName path = .ok ()
  content : world.read path = .ok (Text.bytes text)
  untimed : world.settings.timeout = none
  noStepVariable : world.environment "SCREW_MAX_STEPS" = none
  noTimeVariable : world.environment "SCREW_TIMEOUT_MS" = none
  working : world.outputFault = none

/-- The machine that runs a text on a blank tape, as the settings say. -/
def World.machine (world : World) (text : String) : Machine :=
  Machine.fresh (Program.ofSource (Text.bytes text)) world.settings.cells world.settings.eof
    world.console

/-- A run of a text under the step limit of the settings. -/
def World.result (world : World) (text : String) (fuel : Nat) : Machine.Result :=
  (world.machine text).run fuel .live ⟨world.settings.maxSteps, false⟩

/-- A run that halts is a success, and any other run is not. -/
theorem Command.code_verdict (world : World) (program : Program) (timeout : Option Nat)
    (outcome : Machine.Outcome) :
    (verdict world program timeout outcome).1 = if outcome = .halted then 0 else 3 := by
  cases outcome with
  | halted => rfl
  | failed fault => rfl
  | unfinished => cases timeout <;> rfl

namespace World.Offers

variable {world : World} {path text : String} {fault : Validation.Fault}

theorem load (h : world.Offers path text) :
    Command.load world path =
      (Program.compile (Text.bytes text)).mapError (Command.LoadFault.validation text) := by
  have hload : SourceFile.load world.read path = .ok text := by
    rw [SourceFile.load, h.named, h.content]
    exact congrArg Except.ok (Text.decodeLossy_bytes text)
  rw [Command.load, hload]
  cases hc : Program.compile (Text.bytes text) <;> simp only [hc] <;> rfl

/-- Neither command gets beyond a text that is rejected. -/
theorem load_of_rejected (h : world.Offers path text)
    (hv : Validation.validate (Text.bytes text) = .error fault) :
    Command.load world path = .error (.validation text fault) := by
  rw [h.load, Program.compile_eq_error_iff.mpr hv]
  rfl

theorem load_of_accepted (h : world.Offers path text)
    (hv : Validation.validate (Text.bytes text) = .ok ()) :
    Command.load world path = .ok (Program.ofSource (Text.bytes text)) := by
  rw [h.load, Program.compile_of_validate hv]
  rfl

/-- What a command prints to a working standard output arrives there. -/
theorem delivered (h : world.Offers path text) (output : List UInt8) :
    Command.delivered world output = output := by
  rw [Command.delivered, h.working]
  rfl

/-- Running an accepted file is a run under the settings, reported by its outcome. -/
theorem run_of_accepted (h : world.Offers path text)
    (hv : Validation.validate (Text.bytes text) = .ok ()) :
    let result := world.result text world.patience
    let report := Command.verdict world (Program.ofSource (Text.bytes text)) none result.outcome
    Command.run world ⟨some path, false, none, none⟩ =
      ⟨report.1, result.machine.console.output, report.2⟩ := by
  intro result report
  have htime : Command.timeLimit world ⟨some path, false, none, none⟩ = none := by
    rw [Command.timeLimit, h.noTimeVariable, h.untimed]
    rfl
  have hsteps : Command.stepLimit world ⟨some path, false, none, none⟩ =
      world.settings.maxSteps := by
    rw [Command.stepLimit, h.noStepVariable]
    rfl
  have hblock : Text.bytes (Usage.block []) = [] := by decide
  simp only [Command.run, h.load_of_accepted hv, Command.execute, htime, hsteps, h.delivered,
    Bool.false_eq_true, ↓reduceIte, Machine.lines_run_live, hblock, List.nil_append]
  rfl

/-- Neither checking nor running a rejected file prints anything to standard output. -/
theorem exit_of_rejected (h : world.Offers path text)
    (hv : Validation.validate (Text.bytes text) = .error fault) :
    let complaint := Report.validationFault world.style (some world.program) text fault
    Command.check world (some path) = ⟨1, [], complaint⟩ ∧
      Command.run world ⟨some path, false, none, none⟩ = ⟨1, [], complaint⟩ := by
  constructor
  · rw [Command.check, h.load_of_rejected hv]
    rfl
  · simp only [Command.run, h.load_of_rejected hv]
    rfl

theorem check_of_accepted (h : world.Offers path text)
    (hv : Validation.validate (Text.bytes text) = .ok ()) :
    Command.check world (some path) =
      ⟨0, Text.bytes (path ++ ": ok (" ++ Nat.repr (Program.ofSource (Text.bytes text)).size ++
        " instructions)\n"), ""⟩ := by
  simp only [Command.check, h.load_of_accepted hv, h.delivered]
  rfl

end World.Offers

/-! ### Submissions -/

namespace Repl

variable {text : String} (world : World)

theorem stdout_execute_of_rejected {fault : Validation.Fault} (ht : '~' ∈ text.toList)
    (hv : Validation.validate (Text.bytes text) = .error fault) :
    (execute world.patience world.style world.settings world.console text).stdout =
      [newline] := by
  simp only [execute, Submission.terminate_of_mem ht, Program.compile_eq_error_iff.mpr hv]

theorem stdout_execute_of_accepted (ht : '~' ∈ text.toList)
    (hv : Validation.validate (Text.bytes text) = .ok ()) :
    (execute world.patience world.style world.settings world.console text).stdout =
      (world.result text world.patience).machine.console.output ++ [newline] := by
  have hconsole : { world.console with emissions := #[] } = world.console := by
    unfold World.console
    split <;> rfl
  simp only [execute, Submission.terminate_of_mem ht, Program.compile_of_validate hv, hconsole]
  rfl

end Repl

/-- Checking a file, running it and submitting its text agree, for every text with a terminator.
Checking succeeds, and reports how many instructions the text has, exactly if the text is valid;
else it fails and prints nothing. Running fails in this way exactly if checking does. Otherwise, if
the run ends, it succeeds if the machine halts and fails in another way if the machine does, be it by
the step limit; what is printed is all that the machine has emitted. Submitting prints what running
prints and then a newline. -/
theorem front_ends_agree {world : World} {path text : String} (h : world.Offers path text)
    (ht : '~' ∈ text.toList) :
    let program := Program.ofSource (Text.bytes text)
    let valid := Validation.validate (Text.bytes text) = .ok ()
    let checked := Command.perform world (.check (some path))
    let ran := Command.perform world (.run ⟨some path, false, none, none⟩)
    ((checked.code = 0 ∧ checked.stdout = Text.bytes (path ++ ": ok (" ++ Nat.repr program.size ++
        " instructions)\n")) ↔ valid) ∧
      (¬valid → checked.code = 1 ∧ checked.stdout = []) ∧
      (ran.code = 1 ∧ ran.stdout = [] ↔ checked.code = 1) ∧
      (valid → ∀ fuel ≤ world.patience, (world.result text fuel).outcome ≠ .unfinished →
        (ran.code = 0 ↔ (world.result text fuel).outcome = .halted) ∧
        (ran.code = 3 ↔ ∃ fault, (world.result text fuel).outcome = .failed fault) ∧
        ran.stdout = (world.result text fuel).machine.console.output) ∧
      (Repl.execute world.patience world.style world.settings world.console text).stdout =
        ran.stdout ++ [newline] := by
  intro program valid checked ran
  cases hv : Validation.validate (Text.bytes text) with
  | error fault =>
    obtain ⟨hc, hr⟩ := h.exit_of_rejected hv
    have hchecked : checked = _ := hc
    have hran : ran = _ := hr
    have hinvalid : ¬valid := by simp [valid, hv]
    rw [Repl.stdout_execute_of_rejected world ht hv, hchecked, hran]
    simp [hinvalid]
  | ok _ =>
    have hvalid : valid := hv
    have hchecked : checked = _ := h.check_of_accepted hv
    have hran : ran = _ := h.run_of_accepted hv
    have hcode : ran.code =
        if (world.result text world.patience).outcome = .halted then 0 else 3 := by
      rw [hran]
      exact Command.code_verdict world _ none _
    have hstdout : ran.stdout = (world.result text world.patience).machine.console.output := by
      rw [hran]
    rw [Repl.stdout_execute_of_accepted world ht hv, hchecked, hstdout, hcode]
    refine ⟨by simp [hvalid, program], fun hn => absurd hvalid hn, ?_, ?_, rfl⟩
    · split <;> simp
    · intro _ fuel hle hended
      rw [show world.result text world.patience = world.result text fuel from
        Machine.run_of_le hle hended]
      cases ho : (world.result text fuel).outcome with
      | halted => simp
      | failed fault => simp
      | unfinished => exact absurd ho hended

/-- A program that emits and then leaves the tape of one cell that a settings file asks for: it
passes the check, and what it has emitted is kept when it fails. -/
theorem front_ends_agree_output_before_failure :
    let text := "+.>; é\n~"
    let world : World :=
      { program := "screw"
        read := fun name =>
          .ok (Text.bytes (if name = "own.toml" then "[interpreter]\ncells = 1\n" else text))
        environment := fun name => if name = "SCREW_CONFIG" then some "own.toml" else none
        input := .stream []
        outputFault := none
        colored := false
        patience := 9 }
    let checked := Command.perform world (.check (some "a.scw"))
    let ran := Command.perform world (.run ⟨some "a.scw", false, none, none⟩)
    (world.Offers "a.scw" text ∧ '~' ∈ text.toList ∧
        Validation.validate (Text.bytes text) = .ok () ∧
        (world.result text 3).outcome = .failed (.cursorOutOfBounds 2 0 .right)) ∧
      (checked.code = 0 ∧ checked.stdout = Text.bytes "a.scw: ok (3 instructions)\n") ∧
      (ran.code = 3 ∧ ran.stdout = [1]) ∧
      (Repl.execute world.patience world.style world.settings world.console text).stdout =
        [1, newline] := by
  intro text world checked ran
  have hsettings : world.settings = ⟨1, EofPolicy.default, none, none, Palette.default⟩ := by
    decide +kernel
  have hoffers : world.Offers "a.scw" text :=
    ⟨by decide +kernel, by simp [world], by rw [hsettings], by simp [world], by simp [world], rfl⟩
  have ht : '~' ∈ text.toList := by decide
  have hv : Validation.validate (Text.bytes text) = .ok () := by decide +kernel
  have hresult : (world.result text 3) =
      ⟨.failed (.cursorOutOfBounds 2 0 .right), ⟨Program.ofSource (Text.bytes text), ⟨#[1], 0⟩,
        EofPolicy.default, ⟨[], #[[1]], none, none, 0⟩⟩, 2, []⟩ := by
    rw [World.result, World.machine, hsettings]
    decide +kernel
  obtain ⟨hchecked, -, -, hran, hrepl⟩ := front_ends_agree hoffers ht
  have hended : (world.result text 3).outcome ≠ .unfinished := by simp [hresult]
  obtain ⟨-, hcode, hstdout⟩ := hran hv 3 (by decide) hended
  rw [hresult] at hcode hstdout
  refine ⟨⟨hoffers, ht, hv, by rw [hresult]⟩, ?_, ⟨?_, hstdout⟩, ?_⟩
  · obtain ⟨hsuccess, hreport⟩ := hchecked.mpr hv
    have hcount : (Program.ofSource (Text.bytes text)).size = 3 := by decide +kernel
    rw [hcount] at hreport
    exact ⟨hsuccess, hreport⟩
  · exact hcode.mpr ⟨_, rfl⟩
  · rw [hrepl, hstdout]
    rfl

end ScrewLang
