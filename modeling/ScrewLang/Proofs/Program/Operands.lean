import ScrewLang.Program.Dump

/-!
# The operands of a cell dump

A dump can be executed exactly when a digit, a `^` and a digit follow it, no third digit comes next,
and the two digits name cells in order and on the tape.
-/

namespace ScrewLang

namespace Dump

variable {symbols : Array Symbol} {place cells : Nat} {range : Range}

/-- When a dump can be executed, and what it then names. -/
theorem parse_eq_ok_iff :
    parse symbols place cells = .ok range ↔
      digitAt? symbols (place + 1) = some range.lower ∧ symbols[place + 2]? = some .caret ∧
        digitAt? symbols (place + 3) = some range.upper ∧ digitAt? symbols (place + 4) = none ∧
        range.lower ≤ range.upper ∧ range.upper < cells := by
  unfold parse
  cases hl : digitAt? symbols (place + 1) with
  | none => simp
  | some lower =>
    by_cases hs : symbols[place + 2]? = some .caret
    · have hd : digitAt? symbols (place + 2) = none := by
        rw [digitAt?, hs]
        rfl
      cases hu : digitAt? symbols (place + 3) with
      | none => simp [hd, hs]
      | some upper =>
        cases hf : digitAt? symbols (place + 4) with
        | some next => simp [hd, hs]
        | none =>
          by_cases ho : upper < lower
          · simp only [hd, hs, ho, Option.isSome_none, Bool.false_eq_true, ↓reduceIte, ne_eq,
              not_true_eq_false, reduceCtorEq, Option.some.injEq, false_iff]
            omega
          · by_cases hc : cells ≤ upper
            · simp only [hd, hs, ho, hc, Option.isSome_none, Bool.false_eq_true, ↓reduceIte, ne_eq,
                not_true_eq_false, reduceCtorEq, Option.some.injEq, false_iff]
              omega
            · simp only [hd, hs, ho, hc, Option.isSome_none, Bool.false_eq_true, ↓reduceIte, ne_eq,
                not_true_eq_false, Except.ok.injEq, Option.some.injEq, true_and]
              constructor
              · rintro rfl
                exact ⟨rfl, rfl, Nat.le_of_not_lt ho, Nat.lt_of_not_le hc⟩
              · rintro ⟨rfl, rfl, -, -⟩
                rfl
    · by_cases hd : (digitAt? symbols (place + 2)).isSome
      · simp [hd, hs]
      · simp [hd, hs]

/-- A digit stands where its value is read. -/
theorem digitAt?_eq_some {value : Nat} (h : digitAt? symbols place = some value) :
    ∃ digit, symbols[place]? = some (.digit digit) := by
  obtain ⟨symbol, hs, hd⟩ := Option.bind_eq_some_iff.mp h
  cases symbol with
  | digit digit => exact ⟨digit, hs⟩
  | right | left | increment | decrement | output | input | brace | star | caret => cases hd

/-- The operands of a dump that can be executed are digits and a `^`. -/
theorem operand_of_parse {operand : Nat} (h : parse symbols place cells = .ok range)
    (hl : place < operand) (hu : operand < place + width) :
    symbols[operand]? = some .caret ∨ ∃ digit, symbols[operand]? = some (.digit digit) := by
  obtain ⟨hlower, hcaret, hupper, -, -, -⟩ := parse_eq_ok_iff.mp h
  rw [width] at hu
  obtain rfl | rfl | rfl : operand = place + 1 ∨ operand = place + 2 ∨ operand = place + 3 := by
    omega
  · exact .inr (digitAt?_eq_some hlower)
  · exact .inl hcaret
  · exact .inr (digitAt?_eq_some hupper)

/-- A dump that can be executed has its operands inside the program. -/
theorem parse_width_le (h : parse symbols place cells = .ok range) :
    place + width ≤ symbols.size := by
  obtain ⟨-, -, hu, -, -, -⟩ := parse_eq_ok_iff.mp h
  rw [width]
  by_cases hp : place + 3 < symbols.size
  · omega
  · rw [digitAt?, Array.getElem?_eq_none (Nat.le_of_not_lt hp)] at hu
    cases hu

/-- On a longer tape a dump reads as on the shorter one, unless it names cells behind the end of
that one: this is tested last. -/
theorem parse_of_le (symbols : Array Symbol) (place : Nat) {more : Nat} (hle : cells ≤ more) :
    (∃ upper, parse symbols place cells = .error (.outOfRange upper cells)) ∨
      parse symbols place more = parse symbols place cells := by
  unfold parse
  cases digitAt? symbols (place + 1) with
  | none => exact .inr rfl
  | some lower =>
    by_cases hd : (digitAt? symbols (place + 2)).isSome
    · simp [hd]
    · by_cases hs : symbols[place + 2]? = some .caret
      · cases digitAt? symbols (place + 3) with
        | none => simp [hd, hs]
        | some upper =>
          by_cases hf : (digitAt? symbols (place + 4)).isSome
          · simp [hd, hs, hf]
          · by_cases ho : upper < lower
            · simp [hd, hs, hf, ho]
            · by_cases hc : cells ≤ upper
              · simp [hd, hs, hf, ho, hc]
              · have hm : ¬more ≤ upper := by omega
                simp [hd, hs, hf, ho, hc, hm]
      · simp [hd, hs]

end Dump

end ScrewLang
