import ScrewLang.Proofs.Generator.Snippets
import ScrewLang.Proofs.Program.TextForm
import ScrewLang.Proofs.Source.Braces
import ScrewLang.Proofs.Structured.Refinement

/-!
# Generated programs print what they were made for

Between two bytes of the input the cursor is on the first cell, which holds the byte printed last.
From there each way of the generator leads to the next byte, and so does the shortest of several. A
generated program is also its own source text, whatever text follows it.
-/

namespace ScrewLang

namespace Generator

open Structured

variable {size : Nat} {console : Console}

/-- Building a value step by step. -/
theorem ensures_plain (x target : UInt8) :
    Ensures (Shows size console 0 [x]) (plain target) (Shows size console 0 [target]) := by
  have hclear : Ensures (Shows size console 0 [x]) clear (Shows size console 0 [0]) :=
    ensures_clear rfl
  have hup : Ensures (Shows size console 0 [0]) (up target.toNat)
      (Shows size console 0 [0 + UInt8.ofNat target.toNat]) := ensures_up rfl target.toNat
  rw [UInt8.ofNat_toNat, UInt8.zero_add] at hup
  exact hclear.append hup

/-- The shorter of two sequences does what they both do. -/
theorem ensures_shorter {P Q : Store → Prop} {first second : List Symbol}
    (hf : Ensures P first Q) (hs : Ensures P second Q) : Ensures P (shorter first second) Q := by
  unfold shorter
  split
  · exact hs
  · exact hf

/-- Building a value, in whatever way is the shortest. -/
theorem ensures_rebuild {options : Options} (h : options.loops = true → 2 ≤ size)
    (x target : UInt8) :
    Ensures (Shows size console 0 [x]) (rebuild options target)
      (Shows size console 0 [target]) := by
  unfold rebuild
  split
  · next hl =>
    have hs : 2 ≤ size := h hl.1
    have hproduct (factor : Nat) : Ensures (Shows size console 0 [x]) (product target factor)
        (Shows size console 0 [target]) := by
      have hpair (y : UInt8) : Ensures (Shows size console 0 [x, y]) (product target factor)
          (Shows size console 0 [target, 0]) := ensures_product hs x y target factor
      refine (Ensures.exists_pre hpair).consequence ?_ ?_
      · exact fun _ hx => hx.exists_second hs
      · exact fun _ ht => ht.first
    generalize List.range' 1 options.maxFactor.toNat = factors
    have hbest : ∀ best, Ensures (Shows size console 0 [x]) best (Shows size console 0 [target]) →
        Ensures (Shows size console 0 [x])
          (factors.foldl (fun best factor => shorter best (product target factor)) best)
          (Shows size console 0 [target]) := by
      induction factors with
      | nil => exact fun _ hb => hb
      | cons factor factors ih => exact fun _ hb => ih _ (ensures_shorter hb (hproduct factor))
    exact hbest _ (ensures_plain x target)
  · exact ensures_plain x target

/-- One byte is taken to the next. -/
theorem ensures_change {options : Options} (h : options.loops = true → 2 ≤ size)
    (current target : UInt8) :
    Ensures (Shows size console 0 [current]) (change options current target)
      (Shows size console 0 [target]) :=
  ensures_shorter (ensures_delta current target) (ensures_rebuild h current target)

/-- The console after some bytes, each emitted by itself. -/
def emitted (console : Console) (bytes : List UInt8) : Console :=
  { console with emissions := console.emissions ++ (bytes.map fun b => [b]).toArray }

private theorem emitted_nil (console : Console) : emitted console [] = console := by
  simp [emitted]

private theorem outputFault_emit (console : Console) (output : List UInt8) :
    (console.emit output).outputFault = console.outputFault := rfl

private theorem emitted_emit (ho : console.outputFault = none) (b : UInt8) (rest : List UInt8) :
    emitted (console.emit [b]) rest = emitted console (b :: rest) := by
  obtain ⟨input, emissions, inputFault, outputFault, held⟩ := console
  cases ho
  simp [emitted, Console.emit]

/-- Bytes are printed one after the other. -/
theorem ensures_symbols {options : Options} (h : options.loops = true → 2 ≤ size)
    (ho : console.outputFault = none) (current : UInt8) (input : List UInt8) :
    Ensures (Shows size console 0 [current]) (symbols options current input)
      (fun store => store.console = emitted console input) := by
  induction input generalizing console current with
  | nil =>
    refine Ensures.nil.consequence (fun _ hs => hs) fun _ hs => ?_
    rw [hs.console, emitted_nil]
  | cons target rest ih =>
    have hchange : Ensures (Shows size console 0 [current]) (change options current target)
        (Shows size console 0 [target]) := ensures_change h current target
    have hout : Ensures (Shows size console 0 [target]) [.output]
        (Shows size (console.emit [target]) 0 [target]) := ensures_output rfl ho
    have hrest := ih ((outputFault_emit console [target]).trans ho) target
    rw [emitted_emit ho] at hrest
    exact hchange.append (hout.append hrest)

private theorem shows_blank (cells : Nat) (console : Console) :
    Shows (max cells 1) console 0 [0] ⟨Tape.blank cells, console⟩ := by
  refine ⟨Tape.size_blank cells, rfl, rfl, fun i v hv => ?_⟩
  cases i with
  | zero =>
    cases hv
    show (Array.replicate (max cells 1) 0)[0]? = some 0
    rw [Array.getElem?_replicate, if_pos (by omega)]
  | succ i => cases hv

/-- A generated program has a syntax tree, and the tree prints the bytes that the program was made
for. -/
theorem exists_block (options : Options) (input : List UInt8) :
    ∃ block, Block.parse? (program options input).symbols.toList = some block ∧
      ∀ cells eof console, console.outputFault = none → (options.loops = true → 2 ≤ cells) →
        ∃ tape, block.Runs eof ⟨Tape.blank cells, console⟩ .halted
          ⟨tape, emitted console input⟩ := by
  obtain ⟨block, hp, hs, -⟩ := @ensures_symbols 2 (Console.ofInput []) options
    (fun _ => Nat.le_refl 2) rfl 0 input
  refine ⟨block, ?_, fun cells eof console ho hc => ?_⟩
  · rw [program, List.toList_toArray, ← hs]
    exact hp.parse?
  · have hsize : options.loops = true → 2 ≤ max cells 1 := by
      intro hl
      have := hc hl
      omega
    obtain ⟨⟨tape, last⟩, hx, hlast⟩ := (ensures_symbols hsize ho 0 input).exec hp hs eof 0
      (shows_blank cells console)
    obtain rfl : last = emitted console input := hlast
    have hflush : (emitted console input).flushRefusal? = none := by
      simp [Console.flushRefusal?, emitted, ho]
    exact ⟨tape, none, hx, by simp only [Block.outcome, hflush]⟩

/-- A generated program is its own source, and compiles to itself whatever text follows it. Run on a
fresh machine, with two cells if loops may be used, and with a working output, it halts; it has then
emitted exactly the bytes it was made for, one at a time, and has read nothing. -/
theorem program_round_trip (options : Options) (input : List UInt8) :
    let program := Generator.program options input
    Program.ofSource (Text.bytes program.text) = program ∧
    (∀ trailing, Program.compile (Text.bytes program.text ++ trailing) = .ok program) ∧
    ∀ cells eof console, console.outputFault = none → (options.loops = true → 2 ≤ cells) →
      ∃ bound, ∀ fuel, bound < fuel →
        let result := (Machine.fresh program cells eof console).run fuel .live Machine.Controls.none
        result.outcome = .halted ∧ result.machine.console =
          { console with emissions := console.emissions ++ (input.map fun b => [b]).toArray } := by
  intro program
  obtain ⟨block, hb, hruns⟩ := exists_block options input
  obtain ⟨jumps, hj⟩ := exists_jumps_of_parse? hb
  refine ⟨?_, fun trailing => ?_, fun cells eof console ho hc => ?_⟩
  · have hsource := program.ofSource_text_append []
    rwa [List.append_nil] at hsource
  · have hsource := program.ofSource_text_append trailing
    refine Program.compile_eq_ok_iff.mpr
      ⟨program.checkTerminator_text_append trailing, ?_, hsource.symm⟩
    rcases Validation.checkBraces_or_blame (Text.bytes program.text ++ trailing) with
      ⟨hok, -⟩ | ⟨brace, item, place, -, hblame, -⟩
    · exact hok
    · rw [hsource, hj] at hblame
      cases hblame
  · obtain ⟨tape, hr⟩ := hruns cells eof console ho hc
    obtain ⟨bound, hrun⟩ := run_of_runs hj hb hr
    refine ⟨bound, fun fuel hf => ?_⟩
    obtain ⟨houtcome, hmachine⟩ := hrun fuel hf
    exact ⟨houtcome, congrArg Machine.console hmachine⟩

/-- Two bytes on two cells, with a byte of input that is left alone. -/
theorem program_round_trip_two_bytes :
    ∃ bound, ∀ fuel, bound < fuel →
      let result := (Machine.fresh (program Options.default [72, 105]) 2 .zero
        (Console.ofInput [9])).run fuel .live Machine.Controls.none
      result.outcome = .halted ∧
        result.machine.console = ⟨[9], #[[72], [105]], none, none, 0⟩ :=
  (program_round_trip Options.default [72, 105]).2.2 2 .zero (Console.ofInput [9]) rfl
    fun _ => Nat.le_refl 2

end Generator

end ScrewLang
