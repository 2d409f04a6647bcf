import ScrewLang.Proofs.Generator.Snippets

/-!
# How long generated programs are

Single steps walk around the ring of the 256 values of a cell. One step changes the distance to a
target by at most one, so that no walk is shorter than the direct one. The search for a way to build
a value keeps one that is no longer than any other it has tried, so that a wider search never makes
a program longer.
-/

namespace ScrewLang

namespace Generator

open Structured

/-- A single step upwards or downwards. -/
def IsStep (symbol : Symbol) : Prop :=
  symbol = .increment ∨ symbol = .decrement

/-- Executed with the cursor on the first cell, some symbols take that cell from one value to
another, and neither move the cursor nor touch the console. -/
def Takes (symbols : List Symbol) (current target : UInt8) : Prop :=
  ∀ size console, Ensures (Shows size console 0 [current]) symbols (Shows size console 0 [target])

/-- Of all the runs of steps that take a cell from one value to another, none is shorter. -/
structure IsShortest (run : List Symbol) (current target : UInt8) : Prop where
  steps : ∀ symbol ∈ run, IsStep symbol
  takes : Takes run current target
  least : ∀ other, (∀ symbol ∈ other, IsStep symbol) → Takes other current target →
    run.length ≤ other.length

/-- Some symbols take a cell to one value only. -/
theorem Takes.unique {symbols : List Symbol} {current target other : UInt8}
    (ht : Takes symbols current target) (ho : Takes symbols current other) : target = other := by
  let console := Console.ofInput []
  have hstart : Shows 1 console 0 [current] ⟨⟨#[current.toInt8], 0⟩, console⟩ := by
    refine ⟨rfl, rfl, rfl, fun i v hv => ?_⟩
    cases i with
    | zero =>
      cases hv
      rfl
    | succ i => cases hv
  obtain ⟨block, -, -, hx⟩ := (ht 1 console).and (ho 1 console)
  obtain ⟨final, -, hfinal, hother⟩ := hx .zero 0 _ hstart
  have hcell : target.toInt8 = other.toInt8 := by
    rw [← hfinal.get rfl, hother.get rfl]
  exact congrArg Int8.toUInt8 hcell

/-- A walk around the ring of values, step by step. -/
inductive Walk : List Symbol → UInt8 → UInt8 → Prop where
  /-- No step. -/
  | stay {v : UInt8} : Walk [] v v
  /-- A step upwards first. -/
  | up {rest : List Symbol} {v w : UInt8} (tail : Walk rest (v + 1) w) :
      Walk (.increment :: rest) v w
  /-- A step downwards first. -/
  | down {rest : List Symbol} {v w : UInt8} (tail : Walk rest (v - 1) w) :
      Walk (.decrement :: rest) v w

namespace Walk

variable {steps : List Symbol} {v w : UInt8}

/-- A walk is what the steps do to a cell. -/
theorem takes (h : Walk steps v w) : Takes steps v w := by
  intro size console
  induction h with
  | stay => exact .nil
  | @up rest v w _ ih =>
    have hstep : Ensures (Shows size console 0 [v]) (Generator.up 1)
        (Shows size console 0 [v + 1]) := ensures_up rfl 1
    exact hstep.append ih
  | @down rest v w _ ih =>
    have hstep : Ensures (Shows size console 0 [v]) (Generator.down 1)
        (Shows size console 0 [v - 1]) := ensures_down rfl 1
    exact hstep.append ih

/-- Steps walk somewhere from every value. -/
theorem exists_of_steps (h : ∀ symbol ∈ steps, IsStep symbol) (v : UInt8) :
    ∃ w, Walk steps v w := by
  induction steps generalizing v with
  | nil => exact ⟨v, .stay⟩
  | cons first rest ih =>
    have hrest := ih fun symbol hs => h symbol (List.mem_cons_of_mem first hs)
    rcases h first List.mem_cons_self with rfl | rfl
    · obtain ⟨w, hw⟩ := hrest (v + 1)
      exact ⟨w, .up hw⟩
    · obtain ⟨w, hw⟩ := hrest (v - 1)
      exact ⟨w, .down hw⟩

/-- Steps that take a cell from one value to another walk there. -/
theorem of_takes (h : ∀ symbol ∈ steps, IsStep symbol) (ht : Takes steps v w) : Walk steps v w := by
  obtain ⟨other, hw⟩ := exists_of_steps h v
  rwa [ht.unique hw.takes]

end Walk

/-- The shortest run of steps is made of steps. -/
theorem isStep_of_mem_delta {current target : UInt8} {symbol : Symbol}
    (h : symbol ∈ delta current target) : IsStep symbol := by
  unfold delta at h
  split at h
  · exact .inl (List.eq_of_mem_replicate h)
  · exact .inr (List.eq_of_mem_replicate h)

/-- The length of the run is the distance around the ring, in the direction in which it is less. -/
theorem length_delta (current target : UInt8) :
    (delta current target).length = min (target - current).toNat (current - target).toNat := by
  unfold delta
  split
  · next h =>
    rw [up, List.length_replicate, Nat.min_eq_left (UInt8.le_iff_toNat_le.mp h)]
  · next h =>
    rw [UInt8.le_iff_toNat_le] at h
    rw [down, List.length_replicate, Nat.min_eq_right (by omega)]

/-- No two values are farther apart than half the ring. -/
theorem length_delta_le (current target : UInt8) : (delta current target).length ≤ 128 := by
  have hc := current.toNat_lt
  have ht := target.toNat_lt
  rw [length_delta, UInt8.toNat_sub, UInt8.toNat_sub]
  omega

/-- A step from one value to its neighbour takes at most one off the distance to a target. -/
theorem length_delta_le_of_step {v w : UInt8} (h : w - v = 1 ∨ v - w = 1) (target : UInt8) :
    (delta v target).length ≤ (delta w target).length + 1 := by
  have hv := v.toNat_lt
  have hw := w.toNat_lt
  have ht := target.toNat_lt
  have hstep : (w - v).toNat = 1 ∨ (v - w).toNat = 1 := by
    rcases h with h | h
    · exact .inl (congrArg UInt8.toNat h)
    · exact .inr (congrArg UInt8.toNat h)
  -- All four distances and the step are remainders modulo 256 of differences of the three values.
  simp only [length_delta, UInt8.toNat_sub] at hstep ⊢
  omega

/-- No walk is shorter than the direct one. -/
theorem Walk.length_delta_le {steps : List Symbol} {v w : UInt8} (h : Walk steps v w) :
    (delta v w).length ≤ steps.length := by
  induction h with
  | @stay v => simp [length_delta]
  | @up rest v w _ ih =>
    have hstep := length_delta_le_of_step (.inl (by grind : v + 1 - v = 1)) w
    rw [List.length_cons]
    omega
  | @down rest v w _ ih =>
    have hstep := length_delta_le_of_step (.inr (by grind : v - (v - 1) = 1)) w
    rw [List.length_cons]
    omega

theorem isShortest_delta (current target : UInt8) :
    IsShortest (delta current target) current target where
  steps _ := isStep_of_mem_delta
  takes _ _ := ensures_delta current target
  least _ hs ht := (Walk.of_takes hs ht).length_delta_le

@[simp]
theorem length_shorter (first second : List Symbol) :
    (shorter first second).length = min first.length second.length := by
  unfold shorter
  split <;> omega

/-- The search over some factors ends with a sequence that is as short as the shortest it has seen.
-/
theorem le_length_foldl_shorter {bound : Nat} (target : UInt8) (factors : List Nat)
    (best : List Symbol) :
    bound ≤ (factors.foldl (fun best factor => shorter best (product target factor)) best).length ↔
      bound ≤ best.length ∧ ∀ factor ∈ factors, bound ≤ (product target factor).length := by
  induction factors generalizing best with
  | nil => simp
  | cons factor factors ih =>
    rw [List.foldl_cons, ih, length_shorter, Nat.le_min, List.forall_mem_cons, and_assoc]

/-- What is built is as short as the shortest way that the options allow. -/
theorem le_length_rebuild {options : Options} {target : UInt8} {bound : Nat} :
    bound ≤ (rebuild options target).length ↔
      bound ≤ (plain target).length ∧
        (options.loops = true → target ≠ 0 → ∀ factor, 1 ≤ factor →
          factor ≤ options.maxFactor.toNat → bound ≤ (product target factor).length) := by
  unfold rebuild
  split
  · next h =>
    rw [le_length_foldl_shorter]
    refine and_congr_right fun _ => ?_
    constructor
    · intro hall _ _ factor hone hmax
      apply hall
      rw [List.mem_range'_1]
      omega
    · intro hall factor hmem
      rw [List.mem_range'_1] at hmem
      apply hall h.1 h.2
      · exact hmem.1
      · omega
  · next h => exact ⟨fun hb => ⟨hb, fun hl ht => absurd ⟨hl, ht⟩ h⟩, fun hb => hb.1⟩

/-- Some options allow every loop that others do. -/
def Options.Covers (options others : Options) : Prop :=
  others.loops = true → options.loops = true ∧ others.maxFactor ≤ options.maxFactor

variable {options others : Options}

/-- A wider search finds nothing longer. -/
theorem length_rebuild_le (h : options.Covers others) (target : UInt8) :
    (rebuild options target).length ≤ (rebuild others target).length := by
  have hleast := le_length_rebuild.mp (Nat.le_refl (rebuild options target).length)
  apply le_length_rebuild.mpr
  refine ⟨hleast.1, fun hl ht factor hone hmax => ?_⟩
  have hle := UInt8.le_iff_toNat_le.mp (h hl).2
  apply hleast.2 (h hl).1 ht factor hone
  omega

/-- A wider search makes no program longer, byte by byte. -/
theorem length_symbols_le (h : options.Covers others) (current : UInt8) (input : List UInt8) :
    (symbols options current input).length ≤ (symbols others current input).length := by
  induction input generalizing current with
  | nil => exact Nat.le_refl 0
  | cons target rest ih =>
    have hbuild := length_rebuild_le h target
    have hrest := ih target
    simp only [symbols, change, List.length_append, List.length_cons, length_shorter]
    omega

/-- A byte of the input costs at most half the ring and the symbol that emits it. -/
theorem length_symbols_le_mul (options : Options) (current : UInt8) (input : List UInt8) :
    (symbols options current input).length ≤ 129 * input.length := by
  induction input generalizing current with
  | nil => exact Nat.le_refl 0
  | cons target rest ih =>
    have hdelta := length_delta_le current target
    have hrest := ih target
    simp only [symbols, change, List.length_append, List.length_cons, length_shorter]
    omega

/-- Loops of no rounds are no loops. -/
theorem rebuild_zero (factor target : UInt8) :
    rebuild ⟨true, 0⟩ target = rebuild ⟨false, factor⟩ target := by
  simp [rebuild]

theorem symbols_congr (h : ∀ target, rebuild options target = rebuild others target)
    (current : UInt8) (input : List UInt8) :
    symbols options current input = symbols others current input := by
  induction input generalizing current with
  | nil => rfl
  | cons target rest ih => rw [symbols, symbols, change, change, h, ih]

/-- The text of a generated program has one character for each symbol, and the terminator. -/
theorem length_text_program (options : Options) (input : List UInt8) :
    (program options input).text.length = (symbols options 0 input).length + 1 := by
  rw [Program.text, String.length_ofList, Program.length_glyphs, Program.length, Program.size,
    program, List.size_toArray]

/-- The direct run of steps from one value to another is a shortest one, of at most 128 steps. A
program has at most 129 characters for each byte that it prints, and the terminator. Loops, and a
greater number of rounds to try for them, never make it longer, and loops of no rounds leave it as
it is. -/
theorem size_laws :
    (∀ current target, IsShortest (delta current target) current target ∧
      (delta current target).length ≤ 128) ∧
    ∀ input,
      (∀ options, (program options input).text.length ≤ 129 * input.length + 1) ∧
      (∀ most any, (program ⟨true, most⟩ input).text.length ≤
        (program ⟨false, any⟩ input).text.length) ∧
      (∀ most fewer, fewer ≤ most → (program ⟨true, most⟩ input).text.length ≤
        (program ⟨true, fewer⟩ input).text.length) ∧
      ∀ any, program ⟨true, 0⟩ input = program ⟨false, any⟩ input := by
  have hwider {options others : Options} (h : options.Covers others) (input : List UInt8) :
      (program options input).text.length ≤ (program others input).text.length := by
    rw [length_text_program, length_text_program]
    exact Nat.succ_le_succ (length_symbols_le h 0 input)
  refine ⟨fun current target => ⟨isShortest_delta current target, length_delta_le current target⟩,
    fun input => ⟨fun options => ?_, fun most any => ?_, fun most fewer h => ?_, fun any => ?_⟩⟩
  · rw [length_text_program]
    exact Nat.succ_le_succ (length_symbols_le_mul options 0 input)
  · apply hwider
    intro hl
    cases hl
  · apply hwider
    exact fun _ => ⟨rfl, h⟩
  · rw [program, program, symbols_congr (rebuild_zero any)]

/-- Across zero the other way around is longer, and sixteen rounds are no worse than four. -/
theorem size_laws_across_zero :
    (delta 250 5).length ≤ (down 245).length ∧
      (program ⟨true, 16⟩ [200, 3]).text.length ≤ (program ⟨true, 4⟩ [200, 3]).text.length := by
  have hdown : Takes (down 245) 250 5 := fun size console =>
    @ensures_down size console 0 [250] 250 rfl 245
  refine ⟨(size_laws.1 250 5).1.least (down 245) ?_ hdown, ?_⟩
  · exact fun symbol h => .inr (List.eq_of_mem_replicate h)
  · exact (size_laws.2 [200, 3]).2.2.1 16 4 (by decide)

end Generator

end ScrewLang
