import ScrewLang.Proofs.Program.Operands

/-!
# The conditions on a cell dump

A dump has to meet seven conditions: on the symbols behind its `*`, on the order of its bounds and
on the length of the tape. They are tested in a fixed order, and a dump that fails does so with the
fault that belongs to the first condition that it violates.
-/

namespace ScrewLang

namespace Dump

/-- A dump of the cells from `lower` to `upper` is written behind the `*` at a place. -/
structure Written (symbols : Array Symbol) (place : Nat) (lower upper : Fin 10) : Prop where
  lower : symbols[place + 1]? = some (.digit lower)
  caret : symbols[place + 2]? = some .caret
  upper : symbols[place + 3]? = some (.digit upper)
  ends : ∀ value, symbols[place + 4]? ≠ some (.digit value)

/-- What is asked of a dump. -/
inductive Condition where
  /-- The lower bound is a digit. -/
  | lowerDigit
  /-- The lower bound has no second digit. -/
  | lowerSingle
  /-- A `^` follows the lower bound. -/
  | separator
  /-- The upper bound is a digit. -/
  | upperDigit
  /-- The upper bound has no second digit. -/
  | upperSingle
  /-- The lower bound does not exceed the upper one. -/
  | ordered
  /-- The upper bound is a cell of the tape. -/
  | onTape
deriving DecidableEq, Repr

namespace Condition

/-- The conditions in the order in which they are tested. -/
def all : List Condition :=
  [.lowerDigit, .lowerSingle, .separator, .upperDigit, .upperSingle, .ordered, .onTape]

/-- The dump whose `*` stands at `place` meets a condition, for a tape of `cells` cells. -/
def Holds (symbols : Array Symbol) (place cells : Nat) : Condition → Prop
  | .lowerDigit => ∃ lower, symbols[place + 1]? = some (.digit lower)
  | .lowerSingle => ∀ value, symbols[place + 2]? ≠ some (.digit value)
  | .separator => symbols[place + 2]? = some .caret
  | .upperDigit => ∃ upper, symbols[place + 3]? = some (.digit upper)
  | .upperSingle => ∀ value, symbols[place + 4]? ≠ some (.digit value)
  | .ordered => ∀ lower upper, symbols[place + 1]? = some (.digit lower) →
      symbols[place + 3]? = some (.digit upper) → lower ≤ upper
  | .onTape => ∀ upper, symbols[place + 3]? = some (.digit upper) → upper.val < cells

instance (symbols : Array Symbol) (place cells : Nat) :
    (condition : Condition) → Decidable (condition.Holds symbols place cells)
  | .lowerDigit => inferInstanceAs (Decidable (∃ lower, symbols[place + 1]? = some (.digit lower)))
  | .lowerSingle => inferInstanceAs (Decidable (∀ value, symbols[place + 2]? ≠ some (.digit value)))
  | .separator => inferInstanceAs (Decidable (symbols[place + 2]? = some .caret))
  | .upperDigit => inferInstanceAs (Decidable (∃ upper, symbols[place + 3]? = some (.digit upper)))
  | .upperSingle => inferInstanceAs (Decidable (∀ value, symbols[place + 4]? ≠ some (.digit value)))
  | .ordered => inferInstanceAs (Decidable (∀ lower upper : Fin 10,
      symbols[place + 1]? = some (.digit lower) → symbols[place + 3]? = some (.digit upper) →
        lower ≤ upper))
  | .onTape => inferInstanceAs (Decidable (∀ upper : Fin 10,
      symbols[place + 3]? = some (.digit upper) → upper.val < cells))

/-- The fault with which a dump that violates a condition fails. -/
def fault (symbols : Array Symbol) (place cells : Nat) : Condition → Fault
  | .lowerDigit => .missingLower symbols[place + 1]?
  | .lowerSingle => .multiDigitLower
  | .separator => .missingSeparator symbols[place + 2]?
  | .upperDigit => .missingUpper symbols[place + 3]?
  | .upperSingle => .multiDigitUpper
  | .ordered =>
    .inverted ((digitAt? symbols (place + 1)).getD 0) ((digitAt? symbols (place + 3)).getD 0)
  | .onTape => .outOfRange ((digitAt? symbols (place + 3)).getD 0) cells

/-- The first condition that a dump violates, if it violates one. -/
def firstViolated (symbols : Array Symbol) (place cells : Nat) : Option Condition :=
  all.find? fun condition => ¬condition.Holds symbols place cells

end Condition

variable {symbols : Array Symbol} {place cells : Nat}

/-- A digit is read where one stands. -/
theorem digitAt?_eq_some_iff {value : Nat} :
    digitAt? symbols place = some value ↔
      ∃ digit : Fin 10, symbols[place]? = some (.digit digit) ∧ digit.val = value := by
  constructor
  · intro h
    obtain ⟨digit, hs⟩ := digitAt?_eq_some h
    rw [digitAt?, hs] at h
    exact ⟨digit, hs, Option.some.inj h⟩
  · rintro ⟨digit, hs, rfl⟩
    rw [digitAt?, hs]
    rfl

theorem digitAt?_eq_none_iff :
    digitAt? symbols place = none ↔ ∀ value, symbols[place]? ≠ some (.digit value) := by
  constructor
  · intro h value hs
    rw [digitAt?, hs] at h
    cases h
  · intro h
    cases hd : digitAt? symbols place with
    | none => rfl
    | some value =>
      obtain ⟨digit, hs, -⟩ := digitAt?_eq_some_iff.mp hd
      exact absurd hs (h digit)

/-- The digits of a dump that is written out are the bounds that are read. -/
theorem Written.parse {lower upper : Fin 10} (h : Written symbols place lower upper)
    (ho : lower ≤ upper) (hr : upper.val < cells) :
    Dump.parse symbols place cells = .ok ⟨lower, upper⟩ :=
  parse_eq_ok_iff.mpr ⟨digitAt?_eq_some_iff.mpr ⟨lower, h.lower, rfl⟩, h.caret,
    digitAt?_eq_some_iff.mpr ⟨upper, h.upper, rfl⟩, digitAt?_eq_none_iff.mpr h.ends, ho, hr⟩

/-- A dump that is written out is read as it is written. -/
theorem Written.eq_of_parse {lower upper : Fin 10} {range : Range}
    (h : Written symbols place lower upper) (hp : Dump.parse symbols place cells = .ok range) :
    range = ⟨lower, upper⟩ := by
  obtain ⟨first, last⟩ := range
  obtain ⟨hl, -, hu, -, -, -⟩ := parse_eq_ok_iff.mp hp
  rw [digitAt?_eq_some_iff.mpr ⟨lower, h.lower, rfl⟩] at hl
  rw [digitAt?_eq_some_iff.mpr ⟨upper, h.upper, rfl⟩] at hu
  cases hl
  cases hu
  rfl

/-- Of bounds that are digits the lower one has to be the lesser. -/
theorem Condition.holds_ordered_iff {lower upper : Fin 10}
    (hl : symbols[place + 1]? = some (.digit lower))
    (hu : symbols[place + 3]? = some (.digit upper)) :
    Condition.ordered.Holds symbols place cells ↔ ¬upper.val < lower.val := by
  constructor
  · intro h
    exact Nat.not_lt.mpr (h lower upper hl hu)
  · intro h first last hfirst hlast
    rw [hl] at hfirst
    rw [hu] at hlast
    cases hfirst
    cases hlast
    exact Nat.not_lt.mp h

/-- An upper bound that is a digit has to be less than the length of the tape. -/
theorem Condition.holds_onTape_iff {upper : Fin 10}
    (hu : symbols[place + 3]? = some (.digit upper)) :
    Condition.onTape.Holds symbols place cells ↔ ¬cells ≤ upper.val := by
  constructor
  · intro h
    exact Nat.not_le.mpr (h upper hu)
  · intro h last hlast
    rw [hu] at hlast
    cases hlast
    exact Nat.not_le.mp h

/-- A dump reads as the first condition that it violates has it. -/
theorem parse_eq (symbols : Array Symbol) (place cells : Nat) :
    parse symbols place cells =
      match Condition.firstViolated symbols place cells with
      | some condition => .error (condition.fault symbols place cells)
      | none => .ok
        ⟨(digitAt? symbols (place + 1)).getD 0, (digitAt? symbols (place + 3)).getD 0⟩ := by
  unfold parse Condition.firstViolated Condition.all
  -- one condition after the other: where it is violated both sides end, else both go on
  by_cases hlower : Condition.lowerDigit.Holds symbols place cells
  case neg =>
    have hnone : digitAt? symbols (place + 1) = none := by
      rw [digitAt?_eq_none_iff]
      exact fun value hs => hlower ⟨value, hs⟩
    simp [hlower, hnone, Condition.fault]
  obtain ⟨lower, hl⟩ := id hlower
  have hld : digitAt? symbols (place + 1) = some lower.val := digitAt?_eq_some_iff.mpr ⟨_, hl, rfl⟩
  rw [List.find?_cons_of_neg (by simpa using hlower), hld]
  by_cases hsingle : Condition.lowerSingle.Holds symbols place cells
  case neg =>
    have hsome : digitAt? symbols (place + 2) ≠ none := mt digitAt?_eq_none_iff.mp hsingle
    simp [hsingle, Option.isSome_iff_ne_none.mpr hsome, Condition.fault]
  rw [List.find?_cons_of_neg (by simpa using hsingle), digitAt?_eq_none_iff.mpr hsingle]
  by_cases hcaret : Condition.separator.Holds symbols place cells
  case neg =>
    have hs : symbols[place + 2]? ≠ some .caret := hcaret
    simp [hcaret, hs, Condition.fault]
  have hs : symbols[place + 2]? = some .caret := hcaret
  rw [List.find?_cons_of_neg (by simpa using hcaret), hs]
  by_cases hupper : Condition.upperDigit.Holds symbols place cells
  case neg =>
    have hnone : digitAt? symbols (place + 3) = none := by
      rw [digitAt?_eq_none_iff]
      exact fun value hs => hupper ⟨value, hs⟩
    simp [hupper, hnone, Condition.fault]
  obtain ⟨upper, hu⟩ := id hupper
  have hud : digitAt? symbols (place + 3) = some upper.val := digitAt?_eq_some_iff.mpr ⟨_, hu, rfl⟩
  rw [List.find?_cons_of_neg (by simpa using hupper), hud]
  by_cases hends : Condition.upperSingle.Holds symbols place cells
  case neg =>
    have hsome : digitAt? symbols (place + 4) ≠ none := mt digitAt?_eq_none_iff.mp hends
    simp [hends, Option.isSome_iff_ne_none.mpr hsome, Condition.fault]
  rw [List.find?_cons_of_neg (by simpa using hends), digitAt?_eq_none_iff.mpr hends]
  have hordered := @Condition.holds_ordered_iff symbols place cells lower upper hl hu
  have hrange := @Condition.holds_onTape_iff symbols place cells upper hu
  by_cases ho : upper.val < lower.val
  case pos => simp [hordered, ho, hld, hud, Condition.fault]
  by_cases hr : cells ≤ upper.val
  case pos => simp [hordered, hrange, ho, hr, hud, Condition.fault]
  simp [hordered, hrange, ho, hr]

/-- A dump fails with the fault of the first condition that it violates. -/
theorem parse_eq_error_iff {fault : Fault} :
    parse symbols place cells = .error fault ↔
      ∃ condition, Condition.firstViolated symbols place cells = some condition ∧
        fault = condition.fault symbols place cells := by
  rw [parse_eq]
  cases Condition.firstViolated symbols place cells <;> simp [eq_comm]

/-- A dump can be executed when it is written out and names cells in order and on the tape. -/
theorem exists_parse_iff :
    (∃ range, parse symbols place cells = .ok range) ↔
      ∃ lower upper, Written symbols place lower upper ∧ lower ≤ upper ∧ upper.val < cells := by
  constructor
  · rintro ⟨range, h⟩
    obtain ⟨hl, hc, hu, he, ho, hr⟩ := parse_eq_ok_iff.mp h
    obtain ⟨lower, hlower, hlv⟩ := digitAt?_eq_some_iff.mp hl
    obtain ⟨upper, hupper, huv⟩ := digitAt?_eq_some_iff.mp hu
    rw [← hlv, ← huv] at ho
    rw [← huv] at hr
    exact ⟨lower, upper, ⟨hlower, hc, hupper, digitAt?_eq_none_iff.mp he⟩, ho, hr⟩
  · rintro ⟨lower, upper, hw, ho, hr⟩
    exact ⟨⟨lower, upper⟩, hw.parse ho hr⟩

end Dump

end ScrewLang
