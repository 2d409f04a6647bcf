import ScrewLang.Proofs.Program.Nesting
import ScrewLang.Proofs.Program.Operands

/-!
# The tokens of a program

Read from left to right, a program falls into tokens: a dump that can be executed is one token with
its operands, and every other symbol is a token of its own. The tokens leave no gap. So every brace
starts a token, because no brace is among the operands of a dump, and every jump leads behind one.
-/

namespace ScrewLang

namespace Program

/-- How many symbols the token at a place takes, for a tape of `cells` cells. -/
def tokenWidth (program : Program) (cells place : Nat) : Nat :=
  match program.symbols[place]?, Dump.parse program.symbols place cells with
  | some .star, .ok _ => Dump.width
  | _, _ => 1

/-- The token at a place can be executed. The end of the program is a token too. -/
def WellFormedToken (program : Program) (cells place : Nat) : Prop :=
  match program.symbols[place]? with
  | some .star => ∃ range, Dump.parse program.symbols place cells = .ok range
  | some .caret => False
  | some (.digit _) => False
  | _ => True

variable {program : Program} {jumps : Jumps.Table} {cells start place : Nat} {symbol : Symbol}
  {range : Dump.Range}

theorem tokenWidth_pos (program : Program) (cells place : Nat) :
    0 < program.tokenWidth cells place := by
  rw [tokenWidth]
  split
  · exact Nat.succ_pos 3
  · exact Nat.one_pos

/-- A dump that can be executed takes its operands. -/
theorem tokenWidth_of_parse (hs : program.symbols[place]? = some .star)
    (h : Dump.parse program.symbols place cells = .ok range) :
    program.tokenWidth cells place = Dump.width := by
  simp only [tokenWidth, hs, h]

/-- A token of more than one symbol is a dump that can be executed. -/
theorem exists_parse_of_tokenWidth (h : program.tokenWidth cells place ≠ 1) :
    program.symbols[place]? = some .star ∧
      ∃ range, Dump.parse program.symbols place cells = .ok range := by
  rw [tokenWidth] at h
  split at h
  · next range hs hp => exact ⟨hs, range, hp⟩
  · exact absurd rfl h

/-- The places at which tokens start, from the token at `place` on. The last of them is the end of
the program. -/
def tokenStartsFrom (program : Program) (cells place : Nat) : List Nat :=
  if place < program.size then
    place :: tokenStartsFrom program cells (place + program.tokenWidth cells place)
  else [place]
termination_by program.size - place
decreasing_by
  have := program.tokenWidth_pos cells place
  omega

/-- The places at which the tokens of a program start. -/
def tokenStarts (program : Program) (cells : Nat) : List Nat :=
  program.tokenStartsFrom cells 0

/-- The first token starts where reading begins. -/
theorem self_mem_tokenStartsFrom (program : Program) (cells place : Nat) :
    place ∈ program.tokenStartsFrom cells place := by
  rw [tokenStartsFrom]
  split
  · exact List.mem_cons_self
  · exact List.mem_singleton_self place

/-- Behind every token another one starts. -/
theorem add_tokenWidth_mem_tokenStartsFrom (h : place ∈ program.tokenStartsFrom cells start)
    (hp : place < program.size) :
    place + program.tokenWidth cells place ∈ program.tokenStartsFrom cells start := by
  fun_induction tokenStartsFrom program cells start with
  | case1 start hs ih =>
    apply List.mem_cons_of_mem
    rcases List.mem_cons.mp h with rfl | h
    · exact self_mem_tokenStartsFrom program cells _
    · exact ih h
  | case2 start hs =>
    cases List.mem_singleton.mp h
    exact absurd hp hs

/-- Every place of a program is the start of a token, or lies among the operands of a dump that can
be executed. -/
theorem mem_tokenStartsFrom_or_operand (hl : start ≤ place) (hp : place < program.size) :
    place ∈ program.tokenStartsFrom cells start ∨
      ∃ first range, Dump.parse program.symbols first cells = .ok range ∧ first < place ∧
        place < first + Dump.width := by
  fun_induction tokenStartsFrom program cells start with
  | case1 start hs ih =>
    by_cases he : place = start
    · exact .inl (he ▸ List.mem_cons_self)
    · by_cases hn : start + program.tokenWidth cells start ≤ place
      · exact (ih hn).imp_left (List.mem_cons_of_mem start)
      · -- the place is passed over, which only a dump does
        have hw : program.tokenWidth cells start ≠ 1 := by omega
        obtain ⟨hstar, range, hr⟩ := exists_parse_of_tokenWidth hw
        rw [tokenWidth_of_parse hstar hr] at hn
        exact .inr ⟨start, range, hr, by omega, by omega⟩
  | case2 start hs => omega

/-- Every brace starts a token. -/
theorem mem_tokenStarts_of_brace {side : Brace}
    (hs : program.symbols[place]? = some (.brace side)) : place ∈ program.tokenStarts cells := by
  have hp : place < program.size := (Array.getElem?_eq_some_iff.mp hs).1
  rcases mem_tokenStartsFrom_or_operand (Nat.zero_le place) hp with h | ⟨first, range, hr, hl, hu⟩
  · exact h
  · obtain ho | ⟨digit, ho⟩ := Dump.operand_of_parse hr hl hu <;>
    · rw [hs] at ho
      cases ho

/-- Behind every symbol that starts a token and is no `*` another token starts. -/
theorem succ_mem_tokenStarts (h : place ∈ program.tokenStarts cells)
    (hs : program.symbols[place]? = some symbol) (hn : symbol ≠ .star) :
    place + 1 ∈ program.tokenStarts cells := by
  have hw : program.tokenWidth cells place = 1 := by
    by_cases hw : program.tokenWidth cells place = 1
    · exact hw
    · have hstar := (exists_parse_of_tokenWidth hw).1
      rw [hs] at hstar
      exact absurd (Option.some.inj hstar) hn
  have hnext := add_tokenWidth_mem_tokenStartsFrom h (Array.getElem?_eq_some_iff.mp hs).1
  rw [hw] at hnext
  exact hnext

/-- Behind a dump that can be executed and its operands another token starts. -/
theorem add_width_mem_tokenStarts (h : place ∈ program.tokenStarts cells)
    (hs : program.symbols[place]? = some .star)
    (hr : Dump.parse program.symbols place cells = .ok range) :
    place + Dump.width ∈ program.tokenStarts cells := by
  have hnext := add_tokenWidth_mem_tokenStartsFrom h (Array.getElem?_eq_some_iff.mp hs).1
  rw [tokenWidth_of_parse hs hr] at hnext
  exact hnext

/-- A jump leads to a brace. -/
theorem brace_of_jump (hj : program.jumps = .ok jumps) {partner : Nat}
    (h : jumps.getD place none = some partner) :
    ∃ side, program.symbols[partner]? = some (.brace side) := by
  have hw : ∃ side, (program.symbols.toList.map Symbol.brace?)[partner]? = some (some side) := by
    rcases (Jumps.getD_table_eq_some_iff hj).mp h with hp | hp
    · exact ⟨.closing, hp.closing⟩
    · exact ⟨.opening, hp.opening⟩
  obtain ⟨side, hw⟩ := hw
  rw [List.getElem?_map, Array.getElem?_toList] at hw
  obtain ⟨symbol, hs, hb⟩ := Option.map_eq_some_iff.mp hw
  rw [Symbol.eq_of_brace? hb] at hs
  exact ⟨side, hs⟩

/-- Where a jump goes on, a token starts. -/
theorem jump_mem_tokenStarts (hj : program.jumps = .ok jumps) {partner : Nat}
    (h : jumps.getD place none = some partner) : partner + 1 ∈ program.tokenStarts cells := by
  obtain ⟨side, hs⟩ := brace_of_jump hj h
  exact succ_mem_tokenStarts (mem_tokenStarts_of_brace hs) hs (by simp)

end Program

end ScrewLang
