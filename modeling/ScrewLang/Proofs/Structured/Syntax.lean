import ScrewLang.Program.Dump
import ScrewLang.Proofs.Program.Partners

/-!
# The syntax tree of a program

A program is a sequence of leaves and loops, and the body of a loop is again such a sequence. A leaf
is a single instruction, a dump with its operands, or something that can only fail: a `*` without
proper operands, or a symbol without a meaning of its own. `Block.parse?` reads the tree of a
sequence of symbols and `Block.symbols` writes it out again.
-/

namespace ScrewLang

namespace Structured

/-- A piece of a program without braces. -/
inductive Leaf where
  | right
  | left
  | increment
  | decrement
  | output
  | input
  /-- A dump of the cells from `lower` to `upper`. -/
  | dump (lower upper : Fin 10)
  /-- A `*` that its operands do not follow, and what is wrong with them. -/
  | malformed (cause : Dump.Fault)
  /-- A symbol that means nothing here. -/
  | stray (symbol : Symbol)
deriving DecidableEq, Repr

namespace Leaf

/-- How many symbols a leaf takes. -/
def width : Leaf → Nat
  | .dump _ _ => Dump.width
  | _ => 1

/-- The symbols that write a leaf. -/
def symbols : Leaf → List Symbol
  | .right => [.right]
  | .left => [.left]
  | .increment => [.increment]
  | .decrement => [.decrement]
  | .output => [.output]
  | .input => [.input]
  | .dump lower upper => [.star, .digit lower, .caret, .digit upper]
  | .malformed _ => [.star]
  | .stray symbol => [symbol]

/-- The leaf that a `*` begins, given the symbols after it. -/
def ofOperands : List Symbol → Leaf
  | .digit lower :: .caret :: .digit upper :: rest =>
    match rest with
    | .digit _ :: _ => .malformed .multiDigitUpper
    | _ => .dump lower upper
  | .digit _ :: .caret :: rest => .malformed (.missingUpper rest.head?)
  | .digit _ :: .digit _ :: _ => .malformed .multiDigitLower
  | .digit _ :: rest => .malformed (.missingSeparator rest.head?)
  | rest => .malformed (.missingLower rest.head?)

/-- The leaf that a symbol begins, given the symbols after it. -/
def ofSymbol (rest : List Symbol) : Symbol → Leaf
  | .right => .right
  | .left => .left
  | .increment => .increment
  | .decrement => .decrement
  | .output => .output
  | .input => .input
  | .star => ofOperands rest
  | symbol => .stray symbol

end Leaf

/-- A sequence of leaves and loops. -/
inductive Block where
  | done
  | leaf (first : Leaf) (rest : Block)
  | loop (body rest : Block)
deriving DecidableEq, Repr

namespace Block

/-- How many symbols a block takes. -/
def width : Block → Nat
  | .done => 0
  | .leaf first rest => first.width + rest.width
  | .loop body rest => body.width + rest.width + 2

/-- The symbols that write a block. -/
def symbols : Block → List Symbol
  | .done => []
  | .leaf first rest => first.symbols ++ rest.symbols
  | .loop body rest => .brace .opening :: body.symbols ++ .brace .closing :: rest.symbols

/-- Read the block that some symbols begin with, up to the first closing brace without partner.
After every such brace another block follows; these are the second part, the first of them in front.
-/
def read : List Symbol → Option (Block × List Block)
  | [] => some (.done, [])
  | symbol :: rest =>
    match symbol.brace? with
    | some .closing =>
      match read rest with
      | some (next, outer) => some (.done, next :: outer)
      | none => none
    | some .opening =>
      match read rest with
      | some (body, next :: outer) => some (.loop body next, outer)
      | _ => none
    | none =>
      match read (rest.drop ((Leaf.ofSymbol rest symbol).width - 1)) with
      | some (next, outer) => some (.leaf (Leaf.ofSymbol rest symbol) next, outer)
      | none => none
termination_by symbols => symbols.length
decreasing_by
  all_goals simp only [List.length_drop, List.length_cons]
  all_goals omega

/-- The syntax tree of a sequence of symbols, if its braces are balanced. -/
def parse? (symbols : List Symbol) : Option Block :=
  match read symbols with
  | some (block, []) => some block
  | _ => none

end Block

namespace Leaf

/-- A dump is read from a digit, a `^` and a digit. -/
theorem eq_of_ofOperands_eq_dump {rest : List Symbol} {lower upper : Fin 10}
    (h : ofOperands rest = .dump lower upper) :
    ∃ more, rest = .digit lower :: .caret :: .digit upper :: more := by
  unfold ofOperands at h
  split at h
  · split at h
    · cases h
    · cases h
      exact ⟨_, rfl⟩
  · cases h
  · cases h
  · cases h
  · cases h

/-- What a `*` begins is a dump or malformed. -/
theorem ofOperands_cases (rest : List Symbol) :
    (∃ lower upper, ofOperands rest = .dump lower upper) ∨
      ∃ cause, ofOperands rest = .malformed cause := by
  unfold ofOperands
  split
  · split
    · exact .inr ⟨_, rfl⟩
    · exact .inl ⟨_, _, rfl⟩
  · exact .inr ⟨_, rfl⟩
  · exact .inr ⟨_, rfl⟩
  · exact .inr ⟨_, rfl⟩
  · exact .inr ⟨_, rfl⟩

/-- A leaf writes the symbols that it was read from, and none of these after the first is a brace.
-/
theorem symbols_ofSymbol (rest : List Symbol) (symbol : Symbol) :
    symbol :: rest =
        (ofSymbol rest symbol).symbols ++ rest.drop ((ofSymbol rest symbol).width - 1) ∧
      ∀ other ∈ rest.take ((ofSymbol rest symbol).width - 1), other.brace? = none := by
  cases symbol with
  | star =>
    rcases ofOperands_cases rest with ⟨lower, upper, h⟩ | ⟨cause, h⟩
    · obtain ⟨more, rfl⟩ := eq_of_ofOperands_eq_dump h
      simp [ofSymbol, h, symbols, width, Dump.width, Symbol.brace?]
    · simp [ofSymbol, h, symbols, width]
  | _ => simp [ofSymbol, symbols, width]

theorem length_symbols (leaf : Leaf) : leaf.symbols.length = leaf.width := by
  cases leaf <;> rfl

theorem width_pos (leaf : Leaf) : 0 < leaf.width := by
  cases leaf <;> simp [width, Dump.width]

end Leaf

namespace Block

theorem length_symbols (block : Block) : block.symbols.length = block.width := by
  induction block with
  | done => rfl
  | leaf first rest ih => rw [symbols, List.length_append, Leaf.length_symbols, ih, width]
  | loop body rest ihb ihr =>
    simp only [symbols, List.cons_append, List.length_cons, List.length_append, ihb, ihr, width]
    omega

/-- What was read writes the symbols that it was read from. -/
theorem symbols_of_read {symbols : List Symbol} {block : Block} {outer : List Block}
    (h : read symbols = some (block, outer)) :
    symbols = block.symbols ++ outer.flatMap fun next => .brace .closing :: next.symbols := by
  fun_induction read symbols generalizing block outer with
  | case1 =>
    cases h
    rfl
  | case2 symbol rest hb next inner hr ih =>
    cases h
    obtain rfl := Symbol.eq_of_brace? hb
    rw [ih hr, List.flatMap_cons, Block.symbols, List.nil_append, List.cons_append]
  | case3 => cases h
  | case4 symbol rest hb body next inner hr ih =>
    cases h
    obtain rfl := Symbol.eq_of_brace? hb
    rw [ih hr, List.flatMap_cons, Block.symbols]
    simp only [List.cons_append, List.append_assoc]
  | case5 => cases h
  | case6 symbol rest hb next inner hr ih =>
    cases h
    rw [(Leaf.symbols_ofSymbol rest symbol).1, ih hr, Block.symbols, List.append_assoc]
  | case7 => cases h

/-- A tree writes the symbols that it was read from. -/
theorem symbols_of_parse? {symbols : List Symbol} {block : Block}
    (h : parse? symbols = some block) : block.symbols = symbols := by
  unfold parse? at h
  split at h
  · next hr =>
    cases h
    rw [symbols_of_read hr, List.flatMap_nil, List.append_nil]
  · cases h

end Block

end Structured

end ScrewLang
