import ScrewLang.Program.Basic

/-!
# Programs that print a given byte string

The generator keeps the cursor on the first cell and takes that cell from one byte to the next, then
emits it. For every byte it has two ways, and takes the shorter: a run of single steps around the ring
of 256 values, or clearing the cell and building the value from zero. Building may use a loop that
adds one number to the next cell a number of times, followed by a correction and a loop that moves the
result back.
Spec guidance: `SPEC_FULL.md` §17, component `writer`.
-/

namespace ScrewLang

namespace Generator

/-- How values may be built. -/
structure Options where
  /-- Whether multiplication loops may be used. -/
  loops : Bool
  /-- The greatest number of rounds that is tried for a loop. -/
  maxFactor : UInt8
deriving DecidableEq, Repr

/-- Loops of up to sixteen rounds. -/
def Options.default : Options := ⟨true, 16⟩

/-- A number of steps upwards. -/
def up (count : Nat) : List Symbol :=
  List.replicate count .increment

/-- A number of steps downwards. -/
def down (count : Nat) : List Symbol :=
  List.replicate count .decrement

/-- A loop around some symbols. -/
def loop (body : List Symbol) : List Symbol :=
  .brace .opening :: body ++ [.brace .closing]

/-- The shortest run of steps from one value to another. Of two equally short ones it goes up.
Follows `encode_delta`. -/
def delta (current target : UInt8) : List Symbol :=
  if target - current ≤ current - target then up (target - current).toNat
  else down (current - target).toNat

/-- Set the current cell to zero. -/
def clear : List Symbol :=
  loop (down 1)

/-- Build a value from zero without multiplication. -/
def plain (target : UInt8) : List Symbol :=
  clear ++ up target.toNat

/-- The quotient of two numbers rounded to the nearest, halves upwards, and at least one. -/
def quotient (target factor : Nat) : Nat :=
  max 1 ((2 * target + factor) / (2 * factor))

/-- Correct a value that is a product short of, or beyond, the target. -/
def correction (target product : Nat) : List Symbol :=
  if product ≤ target then up (target - product) else down (product - target)

/-- Build a value in the next cell by a loop of `factor` rounds, and move it back. -/
def product (target : UInt8) (factor : Nat) : List Symbol :=
  clear ++ [.right] ++ clear ++ [.left] ++ up factor ++
    loop ([.right] ++ up (quotient target.toNat factor) ++ [.left] ++ down 1) ++ [.right] ++
    correction target.toNat (factor * quotient target.toNat factor) ++
    loop ([.left] ++ up 1 ++ [.right] ++ down 1) ++ [.left]

/-- The shorter of two sequences, the first if they are equally long. -/
def shorter (first second : List Symbol) : List Symbol :=
  if second.length < first.length then second else first

/-- The shortest way tried to build a value from zero; of equally short ones the first tried.
Follows `encode_from_zero`. -/
def rebuild (options : Options) (target : UInt8) : List Symbol :=
  if options.loops ∧ target ≠ 0 then
    (List.range' 1 options.maxFactor.toNat).foldl
      (fun best factor => shorter best (product target factor)) (plain target)
  else plain target

/-- The symbols that take the cell from one byte to the next. -/
def change (options : Options) (current target : UInt8) : List Symbol :=
  shorter (delta current target) (rebuild options target)

/-- The symbols that print some bytes when the cell holds the value `current`. -/
def symbols (options : Options) : (current : UInt8) → List UInt8 → List Symbol
  | _, [] => []
  | current, target :: rest =>
    change options current target ++ .output :: symbols options target rest

/-- The program that prints some bytes on a blank tape. Follows `generate`. -/
def program (options : Options) (input : List UInt8) : Program :=
  ⟨(symbols options 0 input).toArray⟩

end Generator

end ScrewLang
