import ScrewLang.Proofs.Machine.Rounds
import ScrewLang.Proofs.Program.Operands
import ScrewLang.Proofs.Program.Partners

/-!
# What a plan can be

An action that is planned stays within the tape and within the program. A move is refused exactly at
the end of the tape it would leave by, and no brace of a program with a jump table is without
partner.
-/

namespace ScrewLang

namespace Machine

variable {image : Image} {tape : Tape} {place : Nat} {symbol : Symbol}

/-- What holds of an action planned at a place: where it puts the cursor is on the tape, and where
it jumps to is in the jump table. -/
def Action.Admissible (image : Image) (tape : Tape) (place : Nat) : Action → Prop
  | .move target => target < tape.size
  | .skip partner => image.jumps.getD place none = some partner
  | .loop partner => image.jumps.getD place none = some partner
  | .dump range => Dump.parse image.symbols place tape.size = .ok range
  | _ => True

/-- Every planned action is admissible on a tape with its cursor on a cell. -/
theorem admissible_of_plan {action : Action} (hw : tape.WellFormed)
    (h : plan image tape place symbol = .ok action) : action.Admissible image tape place := by
  rw [Tape.WellFormed] at hw
  cases symbol with
  | right =>
    simp only [plan] at h
    split at h
    · next ht =>
      cases h
      exact ht
    · cases h
  | left =>
    simp only [plan] at h
    split at h
    · cases h
      exact Nat.lt_of_le_of_lt (Nat.sub_le _ _) hw
    · cases h
  | brace side =>
    cases side with
    | opening =>
      simp only [plan] at h
      split at h
      · split at h
        · next partner hp =>
          cases h
          exact hp
        · cases h
      · cases h
        trivial
    | closing =>
      simp only [plan] at h
      split at h
      · cases h
        trivial
      · split at h
        · next partner hp =>
          cases h
          exact hp
        · cases h
  | star =>
    simp only [plan] at h
    split at h
    · next range hr =>
      cases h
      exact hr
    · cases h
  | increment | decrement | output | input =>
    cases h
    trivial
  | caret | digit => cases h

/-- No action changes the length of the tape. -/
theorem Action.size_apply (action : Action) (eof : EofPolicy) (byte? : Option UInt8) (tape : Tape) :
    (action.apply eof byte? tape).size = tape.size := by
  cases action with
  | increment | decrement | read => exact Tape.size_modify tape _
  | dump range => exact Tape.size_clear tape range
  | move | emit | skip | enter | loop | leave => rfl

/-- An admissible action leaves the cursor on the tape. -/
theorem Action.Admissible.cursor_apply_lt {action : Action} (h : action.Admissible image tape place)
    (hw : tape.WellFormed) (eof : EofPolicy) (byte? : Option UInt8) :
    (action.apply eof byte? tape).cursor < tape.size := by
  cases action with
  | move target => exact h
  | dump range =>
    obtain ⟨hl, hu⟩ := Dump.parse_bounds h
    exact Nat.lt_of_le_of_lt hl hu
  | increment | decrement | read | emit | skip | enter | loop | leave => exact hw

/-- An admissible action goes on inside the program or at its end. -/
theorem Action.Admissible.next_le {program : Program} {jumps : Jumps.Table} {eof : EofPolicy}
    {action : Action} (h : action.Admissible ⟨program.symbols, jumps, eof⟩ tape place)
    (hj : program.jumps = .ok jumps) (hp : place < program.size) :
    action.next place ≤ program.size := by
  cases action with
  | skip partner | loop partner => exact Program.jump_lt hj h
  | dump range => exact Dump.parse_width_le h
  | move | increment | decrement | emit | read | enter | leave => exact hp

/-- A move is refused exactly where it would leave the tape, and nothing else is refused so. -/
theorem plan_eq_cursorOutOfBounds_iff {ip ptr : Nat} {op : Symbol} :
    plan image tape place symbol = .error (.cursorOutOfBounds ip ptr op) ↔
      ip = place ∧ ptr = tape.cursor ∧ op = symbol ∧
        (symbol = .left ∧ tape.cursor = 0 ∨ symbol = .right ∧ tape.size ≤ tape.cursor + 1) := by
  cases symbol with
  | right =>
    simp only [plan]
    split
    · next ht =>
      simp only [reduceCtorEq, false_and, true_and, false_or, false_iff]
      omega
    · next ht =>
      simp only [Except.error.injEq, Fault.cursorOutOfBounds.injEq, reduceCtorEq, false_and,
        false_or, Nat.le_of_not_lt ht, and_true]
      grind
  | left =>
    simp only [plan]
    split
    · next ht =>
      simp only [reduceCtorEq, true_and, false_and, or_false, false_iff]
      omega
    · next ht =>
      simp only [Except.error.injEq, Fault.cursorOutOfBounds.injEq, reduceCtorEq, false_and,
        or_false, Nat.eq_zero_of_not_pos ht, and_true]
      grind
  | brace side =>
    cases side with
    | opening => simp only [plan]; repeat' split <;> simp
    | closing => simp only [plan]; repeat' split <;> simp
  | star => simp only [plan]; split <;> simp
  | increment | decrement | output | input | caret | digit => simp [plan]

/-- In a program with a jump table no instruction finds a brace without partner. -/
theorem plan_ne_unmatchedBrace {program : Program} {jumps : Jumps.Table} {eof : EofPolicy}
    (h : program.jumps = .ok jumps) (hs : program.symbols[place]? = some symbol) (ip : Nat) :
    plan ⟨program.symbols, jumps, eof⟩ tape place symbol ≠ .error (.unmatchedBrace ip) := by
  cases symbol with
  | brace side =>
    obtain ⟨partner, hp⟩ := Program.exists_partner h hs
    cases side with
    | opening => simp only [plan, hp]; split <;> simp
    | closing => simp only [plan, hp]; split <;> simp
  | right => simp only [plan]; split <;> simp
  | left => simp only [plan]; split <;> simp
  | star => simp only [plan]; split <;> simp
  | increment | decrement | output | input | caret | digit => simp [plan]

/-- A program with a jump table never fails on a brace. -/
theorem outcome_run_ne_unmatchedBrace {machine : Machine} {jumps : Jumps.Table} {fuel : Nat}
    {mode : Mode} {controls : Controls} {ip : Nat} (h : machine.program.jumps = .ok jumps) :
    (machine.run fuel mode controls).outcome ≠ .failed (.unmatchedBrace ip) := by
  intro ho
  obtain ⟨count, state, -, -, he⟩ := (outcome_run_eq_iff h (by simp)).mp ho
  rcases State.round_eq_failed_iff.mp he with ⟨-, hc⟩ | ⟨symbol, hs, hr | ⟨-, hd⟩⟩
  · obtain ⟨cause, hc⟩ := State.eq_of_closing? hc
    cases hc
  · obtain hr | ⟨limit, hr⟩ := Controls.eq_of_refusal? hr <;> cases hr
  · rcases State.decision_eq_error_iff.mp hd with hp | ⟨-, action, cause, -, -, hp⟩
    · exact plan_ne_unmatchedBrace h hs ip hp
    · cases hp

end Machine

end ScrewLang
