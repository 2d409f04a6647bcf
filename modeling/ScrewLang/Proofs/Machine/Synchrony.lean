import ScrewLang.Proofs.Machine.Failures
import ScrewLang.Proofs.Program.Tokens

/-!
# Execution token by token

Whatever jumps a run takes, it goes from token to token and never comes to an operand of a dump. So
what a run can find wrong with the symbols of a program shows already when the program is read from
left to right: a run fails on a symbol or on a dump only at a token that cannot be executed.
-/

namespace ScrewLang

namespace Machine

/-- A fault that speaks of the symbols of the program, not of the tape, the devices or the time. -/
def Fault.Syntactic : Fault → Prop
  | .unknownSymbol _ _ => True
  | .dump _ _ => True
  | .unmatchedBrace _ => True
  | _ => False

/-- Where a planned action goes on: at the next place, behind a partner, or behind a dump. -/
theorem next_of_plan {image : Image} {tape : Tape} {place : Nat} {symbol : Symbol} {action : Action}
    (h : plan image tape place symbol = .ok action) :
    (symbol ≠ .star ∧ action.next place = place + 1) ∨
      (∃ partner, image.jumps.getD place none = some partner ∧
        action.next place = partner + 1) ∨
      symbol = .star ∧ ∃ range, Dump.parse image.symbols place tape.size = .ok range ∧
        action.next place = place + Dump.width := by
  cases symbol with
  | right | left =>
    simp only [plan] at h
    split at h
    · cases h
      exact .inl ⟨by simp, rfl⟩
    · cases h
  | brace side =>
    cases side with
    | opening =>
      simp only [plan] at h
      split at h
      · split at h
        · next partner hp =>
          cases h
          exact .inr (.inl ⟨partner, hp, rfl⟩)
        · cases h
      · cases h
        exact .inl ⟨by simp, rfl⟩
    | closing =>
      simp only [plan] at h
      split at h
      · cases h
        exact .inl ⟨by simp, rfl⟩
      · split at h
        · next partner hp =>
          cases h
          exact .inr (.inl ⟨partner, hp, rfl⟩)
        · cases h
  | star =>
    simp only [plan] at h
    split at h
    · next range hr =>
      cases h
      exact .inr (.inr ⟨rfl, range, hr, rfl⟩)
    · cases h
  | increment | decrement | output | input =>
    cases h
    exact .inl ⟨by simp, rfl⟩
  | caret | digit => cases h

namespace State

/-- One instruction leads to a place of the program or to its end. -/
theorem place_le_of_round {program : Program} {jumps : Jumps.Table} {eof : EofPolicy} {mode : Mode}
    {controls : Controls} {state next : State} (hj : program.jumps = .ok jumps)
    (h : state.round ⟨program.symbols, jumps, eof⟩ mode controls = .ok next) :
    next.place ≤ program.size := by
  obtain ⟨symbol, action, hs, -, hd, rfl⟩ := round_eq_ok_iff.mp h
  rw [place_perform]
  rcases next_of_plan (decision_eq_ok_iff.mp hd).1 with ⟨-, he⟩ | ⟨partner, hp, he⟩ |
    ⟨-, range, hp, he⟩
  · rw [he]
    exact (Array.getElem?_eq_some_iff.mp hs).1
  · rw [he]
    exact Program.jump_lt hj hp
  · rw [he]
    exact Dump.parse_width_le hp

/-- A whole run stays in the program or comes to its end, whatever the tape. -/
theorem place_le_of_after {program : Program} {jumps : Jumps.Table} {eof : EofPolicy} {mode : Mode}
    {controls : Controls} {count : Nat} {state final : State} (hj : program.jumps = .ok jumps)
    (hs : state.place ≤ program.size)
    (h : state.after ⟨program.symbols, jumps, eof⟩ mode controls count = some final) :
    final.place ≤ program.size :=
  after_induction (motive := fun s => s.place ≤ program.size) h hs
    fun _ _ _ hr => place_le_of_round hj hr

/-- A run stands at the start of a token, on a tape of `cells` cells. The length of the tape belongs
to this, because it decides which dumps are tokens. -/
structure AtToken (program : Program) (cells : Nat) (state : State) : Prop where
  size : state.tape.size = cells
  place : state.place ∈ program.tokenStarts cells

variable {program : Program} {cells : Nat} {jumps : Jumps.Table} {eof : EofPolicy} {mode : Mode}
  {controls : Controls} {state next final : State} {fault : Fault}

/-- One instruction leads from token to token. -/
theorem AtToken.round (h : state.AtToken program cells) (hj : program.jumps = .ok jumps)
    (hr : state.round ⟨program.symbols, jumps, eof⟩ mode controls = .ok next) :
    next.AtToken program cells := by
  obtain ⟨symbol, action, hs, -, hd, rfl⟩ := round_eq_ok_iff.mp hr
  have hplan := (decision_eq_ok_iff.mp hd).1
  obtain ⟨byte?, ht⟩ := tape_perform ⟨program.symbols, jumps, eof⟩ mode state symbol action
  constructor
  · rw [ht, Action.size_apply, h.size]
  · rw [place_perform]
    rcases next_of_plan hplan with ⟨hn, he⟩ | ⟨partner, hp, he⟩ | ⟨rfl, range, hp, he⟩
    · rw [he]
      exact Program.succ_mem_tokenStarts h.place hs hn
    · -- a jump may lead anywhere, but always to a brace, and no brace is an operand
      rw [he]
      exact Program.jump_mem_tokenStarts hj hp
    · rw [he]
      rw [h.size] at hp
      exact Program.add_width_mem_tokenStarts h.place hs hp

/-- A whole run goes from token to token. -/
theorem AtToken.after {count : Nat} (h : state.AtToken program cells)
    (hj : program.jumps = .ok jumps)
    (ha : state.after ⟨program.symbols, jumps, eof⟩ mode controls count = some final) :
    final.AtToken program cells :=
  after_induction ha h fun _ _ hs hr => hs.round hj hr

/-- A syntactic fault explains itself by a token that cannot be executed. -/
theorem not_wellFormedToken_of_explains (h : fault.Explains program state) (hf : fault.Syntactic) :
    fault.place? = some state.place ∧ ¬program.WellFormedToken state.tape.size state.place := by
  cases fault with
  | unknownSymbol place symbol =>
    obtain ⟨rfl, hs, rfl | ⟨value, rfl⟩⟩ := h
    · exact ⟨rfl, by simp [Program.WellFormedToken, hs]⟩
    · exact ⟨rfl, by simp [Program.WellFormedToken, hs]⟩
  | dump place cause =>
    obtain ⟨rfl, hs, hc⟩ := h
    exact ⟨rfl, by simp [Program.WellFormedToken, hs, hc]⟩
  | unmatchedBrace => exact h.elim
  | cursorOutOfBounds | device | stepLimit | canceled => exact hf.elim

/-- A round fails with a syntactic fault only at a token that cannot be executed. -/
theorem not_wellFormedToken_of_round (hj : program.jumps = .ok jumps) (hf : fault.Syntactic)
    (h : state.round ⟨program.symbols, jumps, eof⟩ mode controls = .error (.failed fault)) :
    fault.place? = some state.place ∧ ¬program.WellFormedToken state.tape.size state.place := by
  have hp : ∃ place, fault.place? = some place := by
    cases fault with
    | unknownSymbol place | dump place | unmatchedBrace place => exact ⟨place, rfl⟩
    | cursorOutOfBounds | device | stepLimit | canceled => exact hf.elim
  obtain ⟨place, hp⟩ := hp
  rcases plan_or_refusal_of_round h hp with ⟨symbol, hs, hplan⟩ | ⟨cause, rfl, -⟩
  · exact not_wellFormedToken_of_explains (explains_of_plan hj hs hplan) hf
  · exact hf.elim

end State

/-- A run stays in step with the tokens of its program. For a program with a jump table, on any
machine, every place that a run comes to is the start of a token. If all tokens can be executed, no
run ends with a syntactic fault; and where a run does, no brace is to blame, and the place that the
fault names is the start of a token that cannot be executed. -/
theorem execution_in_step_with_tokens {machine : Machine} {jumps : Jumps.Table}
    (hj : machine.program.jumps = .ok jumps) (mode : Mode) (controls : Controls) :
    let starts := machine.program.tokenStarts machine.tape.size
    let wellFormed := machine.program.WellFormedToken machine.tape.size
    (∀ count state, machine.Reaches mode controls count state → state.place ∈ starts) ∧
      ((∀ place ∈ starts, wellFormed place) → ∀ fuel fault, fault.Syntactic →
        (machine.run fuel mode controls).outcome ≠ .failed fault) ∧
      ∀ fuel fault, fault.Syntactic → (machine.run fuel mode controls).outcome = .failed fault →
        (∀ place, fault ≠ .unmatchedBrace place) ∧
        ∃ place ∈ starts, fault.place? = some place ∧ ¬wellFormed place := by
  intro starts wellFormed
  have hstart : machine.start.AtToken machine.program machine.tape.size :=
    ⟨rfl, Program.self_mem_tokenStartsFrom machine.program machine.tape.size 0⟩
  have hfail : ∀ fuel fault, fault.Syntactic →
      (machine.run fuel mode controls).outcome = .failed fault →
      ∃ place ∈ starts, fault.place? = some place ∧ ¬wellFormed place := by
    intro fuel fault hf ho
    obtain ⟨count, state, -, ha, he⟩ := (outcome_run_eq_iff hj (by simp)).mp ho
    have hat := hstart.after hj ha
    have hbad := State.not_wellFormedToken_of_round hj hf he
    rw [hat.size] at hbad
    exact ⟨state.place, hat.place, hbad⟩
  refine ⟨?_, ?_, ?_⟩
  · rintro count state ⟨other, hk, ha⟩
    exact (hstart.after hk ha).place
  · intro hall fuel fault hf ho
    obtain ⟨place, hp, -, hbad⟩ := hfail fuel fault hf ho
    exact hbad (hall place hp)
  · intro fuel fault hf ho
    refine ⟨?_, hfail fuel fault hf ho⟩
    rintro place rfl
    exact outcome_run_ne_unmatchedBrace hj ho

/-- A loop around a dump of two cells runs without a syntactic fault on two cells. On a single cell
its `*` is a token that cannot be executed, and the run fails there. -/
theorem execution_in_step_with_tokens_dump_in_loop :
    let program : Program := ⟨#[.increment, .brace .opening, .decrement, .star, .digit 0, .caret,
      .digit 1, .brace .closing]⟩
    let wide := fresh program 2 .zero (Console.ofInput [])
    let narrow := fresh program 1 .zero (Console.ofInput [])
    program.tokenStarts 2 = [0, 1, 2, 3, 7, 8] ∧
      (∀ fuel fault, fault.Syntactic →
        (wide.run fuel .live Controls.none).outcome ≠ .failed fault) ∧
      (narrow.run 9 .live Controls.none).outcome = .failed (.dump 3 (.outOfRange 1 1)) ∧
      3 ∈ program.tokenStarts 1 ∧ ¬program.WellFormedToken 1 3 := by
  intro program wide narrow
  let jumps : Jumps.Table := #[none, some 7, none, none, none, none, none, some 1]
  have hw : wide.program.jumps = .ok jumps := rfl
  have hn : narrow.program.jumps = .ok jumps := rfl
  have hstarts : program.tokenStarts 2 = [0, 1, 2, 3, 7, 8] := by decide +kernel
  have hall : ∀ place ∈ program.tokenStarts 2, program.WellFormedToken 2 place := by
    rw [hstarts]
    intro place hp
    simp only [List.mem_cons, List.not_mem_nil, or_false] at hp
    rcases hp with rfl | rfl | rfl | rfl | rfl | rfl
    · exact trivial
    · exact trivial
    · exact trivial
    · exact ⟨⟨0, 1⟩, rfl⟩
    · exact trivial
    · exact trivial
  have ho : (narrow.run 9 .live Controls.none).outcome = .failed (.dump 3 (.outOfRange 1 1)) := rfl
  obtain ⟨-, hwide, -⟩ := execution_in_step_with_tokens hw .live Controls.none
  obtain ⟨-, -, hnarrow⟩ := execution_in_step_with_tokens hn .live Controls.none
  obtain ⟨-, place, hp, he, hbad⟩ := hnarrow 9 (.dump 3 (.outOfRange 1 1)) trivial ho
  cases he
  exact ⟨hstarts, hwide hall, ho, hp, hbad⟩

end Machine

end ScrewLang
