import ScrewLang.Proofs.Machine.Rounds
import ScrewLang.Proofs.Structured.Execution

/-!
# Leaves and instructions

A leaf that stands at a place of a program does there what the machine does in one round: it fails
with the same fault, or it has the same effect and the run goes on after the last symbol of the
leaf.
-/

namespace ScrewLang

namespace Structured

open Machine (State Image Controls plan)

/-- A leaf stands at a place of a sequence of symbols. -/
def Leaf.At (symbols : Array Symbol) (place : Nat) (leaf : Leaf) : Prop :=
  ∃ symbol, symbols[place]? = some symbol ∧ symbol.brace? = none ∧
    leaf = .ofSymbol (symbols.toList.drop (place + 1)) symbol

/-- The store that a run works on. -/
def Store.ofState (state : State) : Store :=
  ⟨state.tape, state.console⟩

private theorem getElem?_operand (symbols : Array Symbol) (place i : Nat) :
    symbols[place + (i + 1)]? = (symbols.toList.drop (place + 1))[i]? := by
  rw [List.getElem?_drop, Array.getElem?_toList, Nat.add_right_comm, Nat.add_assoc]

/-- The machine reads the operands of a dump as the syntax tree has them. -/
theorem parse_of_dump {symbols : Array Symbol} {place : Nat} {lower upper : Fin 10} (cells : Nat)
    (h : Leaf.ofOperands (symbols.toList.drop (place + 1)) = .dump lower upper) :
    Dump.parse symbols place cells =
      if upper < lower then .error (.inverted lower upper)
      else if cells ≤ upper then .error (.outOfRange upper cells)
      else .ok ⟨lower, upper⟩ := by
  simp only [Dump.parse, Dump.digitAt?, getElem?_operand symbols place]
  obtain ⟨more, hm⟩ := Leaf.eq_of_ofOperands_eq_dump h
  rw [hm] at h ⊢
  cases more with
  | nil => rfl
  | cons next more =>
    cases next with
    | digit value => simp [Leaf.ofOperands] at h
    | _ => rfl

/-- The machine finds the fault in the operands of a dump that the syntax tree has. -/
theorem parse_of_malformed {symbols : Array Symbol} {place : Nat} {cause : Dump.Fault} (cells : Nat)
    (h : Leaf.ofOperands (symbols.toList.drop (place + 1)) = .malformed cause) :
    Dump.parse symbols place cells = .error cause := by
  simp only [Dump.parse, Dump.digitAt?, getElem?_operand symbols place]
  generalize symbols.toList.drop (place + 1) = rest at h ⊢
  rcases rest with _ | ⟨first, rest⟩
  · simpa [Leaf.ofOperands] using h
  · cases first with
    | digit lower =>
      rcases rest with _ | ⟨second, rest⟩
      · simpa [Leaf.ofOperands, Symbol.digit?] using h
      · cases second with
        | caret =>
          rcases rest with _ | ⟨third, rest⟩
          · simpa [Leaf.ofOperands, Symbol.digit?] using h
          · cases third with
            | digit upper =>
              rcases rest with _ | ⟨fourth, rest⟩
              · simp [Leaf.ofOperands] at h
              · cases fourth with
                | digit value => simpa [Leaf.ofOperands, Symbol.digit?] using h
                | _ => simp [Leaf.ofOperands] at h
            | _ => simpa [Leaf.ofOperands, Symbol.digit?] using h
        | _ => simpa [Leaf.ofOperands, Symbol.digit?] using h
    | _ => simpa [Leaf.ofOperands, Symbol.digit?] using h

/-- A leaf has in a state the effect of a symbol: it fails as the symbol is planned to fail, or it
does what the planned action does, unless the console refuses. -/
def Leaf.Mirrors (image : Image) (state : State) (symbol : Symbol) (leaf : Leaf) : Prop :=
  (∃ fault, plan image state.tape state.place symbol = .error fault ∧
    leaf.exec image.eof state.place (.ofState state) = .error fault) ∨
  ∃ action, plan image state.tape state.place symbol = .ok action ∧
    action.next state.place = state.place + leaf.width ∧
    leaf.exec image.eof state.place (.ofState state) =
      match action.refusal? state.tape state.console with
      | some cause => .error (.device state.place cause)
      | none => .ok (.ofState (state.perform image .live symbol action))

private theorem mirrors_input (image : Image) (state : State) :
    Leaf.input.Mirrors image state .input := by
  refine .inr ⟨.read, rfl, rfl, ?_⟩
  simp only [Leaf.exec, Store.read, Store.ofState, Machine.Action.refusal?]
  cases hr : state.console.readRefusal? with
  | some cause => rfl
  | none =>
    cases hc : state.console.read with
    | mk byte? console =>
      cases byte? <;> simp [State.perform, Machine.Action.converse, Machine.Action.apply, hc]

private theorem mirrors_star (image : Image) (state : State) :
    (Leaf.ofOperands (image.symbols.toList.drop (state.place + 1))).Mirrors image state .star := by
  rcases Leaf.ofOperands_cases (image.symbols.toList.drop (state.place + 1)) with
    ⟨lower, upper, hd⟩ | ⟨cause, hd⟩
  · have hp := parse_of_dump state.tape.size hd
    rw [hd]
    by_cases ho : upper < lower
    · rw [if_pos ho] at hp
      exact .inl ⟨_, by simp only [plan, hp], if_pos ho⟩
    · rw [if_neg ho] at hp
      by_cases hu : state.tape.size ≤ upper
      · rw [if_pos hu] at hp
        refine .inl ⟨.dump state.place (.outOfRange upper state.tape.size), ?_, ?_⟩
        · simp only [plan, hp]
        · simp only [Leaf.exec, Store.ofState, ho, hu, ↓reduceIte]
      · rw [if_neg hu] at hp
        refine .inr ⟨.dump ⟨lower, upper⟩, by simp only [plan, hp], rfl, ?_⟩
        simp only [Leaf.exec, Store.ofState, Store.emit, ho, hu, ↓reduceIte,
          Machine.Action.refusal?]
        cases hr : state.console.emitRefusal? (state.tape.bytes ⟨lower, upper⟩) <;> rfl
  · have hp := parse_of_malformed state.tape.size hd
    rw [hd]
    exact .inl ⟨_, by simp only [plan, hp], rfl⟩

/-- A leaf that stands at the current place has the effect of the symbol there. -/
theorem Leaf.At.mirrors {image : Image} {state : State} {leaf : Leaf}
    (h : leaf.At image.symbols state.place) :
    ∃ symbol, image.symbols[state.place]? = some symbol ∧ leaf.Mirrors image state symbol := by
  obtain ⟨symbol, hs, hb, rfl⟩ := h
  refine ⟨symbol, hs, ?_⟩
  cases symbol with
  | right =>
    by_cases hc : state.tape.cursor + 1 < state.tape.size
    · exact .inr ⟨.move (state.tape.cursor + 1), if_pos hc, rfl, if_pos hc⟩
    · exact .inl ⟨_, if_neg hc, if_neg hc⟩
  | left =>
    by_cases hc : 0 < state.tape.cursor
    · exact .inr ⟨.move (state.tape.cursor - 1), if_pos hc, rfl, if_pos hc⟩
    · exact .inl ⟨_, if_neg hc, if_neg hc⟩
  | increment => exact .inr ⟨.increment, rfl, rfl, rfl⟩
  | decrement => exact .inr ⟨.decrement, rfl, rfl, rfl⟩
  | output => exact .inr ⟨.emit, rfl, rfl, rfl⟩
  | input => exact mirrors_input image state
  | star => exact mirrors_star image state
  | brace side => cases hb
  | caret => exact .inl ⟨_, rfl, rfl⟩
  | digit value => exact .inl ⟨_, rfl, rfl⟩

/-- Where a leaf fails, a round fails with the same fault. -/
theorem Leaf.At.round_of_error {image : Image} {state : State} {leaf : Leaf} {fault : Machine.Fault}
    (h : leaf.At image.symbols state.place)
    (he : leaf.exec image.eof state.place (.ofState state) = .error fault) :
    state.round image .live Controls.none = .error (.failed fault) := by
  obtain ⟨symbol, hs, ⟨other, hp, hf⟩ | ⟨action, hp, -, hf⟩⟩ := h.mirrors
  · rw [hf] at he
    cases he
    exact State.round_eq_failed_iff.mpr
      (.inr ⟨symbol, hs, .inr ⟨rfl, State.decision_eq_error_iff.mpr (.inl hp)⟩⟩)
  · rw [hf] at he
    split at he
    · next cause hr =>
      cases he
      exact State.round_eq_failed_iff.mpr (.inr ⟨symbol, hs, .inr ⟨rfl,
        State.decision_eq_error_iff.mpr (.inr ⟨rfl, action, cause, hp, hr, rfl⟩)⟩⟩)
    · cases he

/-- Where a leaf succeeds, a round goes on after it with the same effect. -/
theorem Leaf.At.round_of_ok {image : Image} {state : State} {leaf : Leaf} {next : Store}
    (h : leaf.At image.symbols state.place)
    (he : leaf.exec image.eof state.place (.ofState state) = .ok next) :
    ∃ reached, state.round image .live Controls.none = .ok reached ∧
      reached.place = state.place + leaf.width ∧ Store.ofState reached = next := by
  obtain ⟨symbol, hs, ⟨other, -, hf⟩ | ⟨action, hp, hw, hf⟩⟩ := h.mirrors
  · rw [hf] at he
    cases he
  · rw [hf] at he
    split at he
    · cases he
    · next hr =>
      cases he
      refine ⟨_, State.round_eq_ok_iff.mpr ⟨symbol, action, hs, rfl, ?_, rfl⟩, ?_, rfl⟩
      · exact State.decision_eq_ok_iff.mpr ⟨hp, fun _ => hr⟩
      · rw [State.place_perform, hw]

end Structured

end ScrewLang
