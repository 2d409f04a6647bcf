import ScrewLang.Text.Blank
import ScrewLang.Text.Numeral

/-!
# The numbers that numerals denote

Numerals are read digit by digit under a bound. What is read is the decimal value of all the digits:
since the value of the digits read so far never exceeds that of all of them, a number that fits is
never given up on the way, and one that does not fit never gets through.
-/

namespace ScrewLang.Numeral

variable {c : Char} {text : List Char} {value n : Nat}

example : bound = 2 ^ 64 := rfl

/-- One or more ASCII digits, and the number below the bound that they write in base ten. -/
structure Decimal (text : List Char) (n : Nat) : Prop where
  nonempty : text ≠ []
  digits : ∀ c ∈ text, c.isDigit = true
  value : Nat.ofDigitChars 10 text 0 = n
  bounded : n < bound

/-- A numeral: a decimal, or a `+` and then a decimal. -/
def Denotes (text : List Char) (n : Nat) : Prop :=
  Decimal text n ∨ ∃ rest, text = '+' :: rest ∧ Decimal rest n

theorem toNat_of_isDigit (h : c.isDigit = true) : 48 ≤ c.toNat ∧ c.toNat ≤ 57 := by
  simp only [Char.isDigit, Bool.and_eq_true, decide_eq_true_eq] at h
  exact h

/-- A digit is no blank. -/
theorem not_blank_of_isDigit (h : c.isDigit = true) : Text.isBlank c = false := by
  have := toNat_of_isDigit h
  simp only [Text.isBlank, Text.blankRanges, List.any_cons, List.any_nil, Bool.or_false,
    Bool.or_eq_false_iff, Bool.and_eq_false_iff, decide_eq_false_iff_not]
  omega

theorem digit?_eq (c : Char) :
    digit? c = if c.isDigit = true then some (c.toNat - '0'.toNat) else none := by
  simp only [digit?, Char.isDigit, Bool.and_eq_true, decide_eq_true_eq]
  rfl

theorem le_ofDigitChars (text : List Char) (value : Nat) :
    value ≤ Nat.ofDigitChars 10 text value := by
  induction text generalizing value with
  | nil => simp
  | cons c text ih =>
    rw [Nat.ofDigitChars_cons]
    have := ih (10 * value + (c.toNat - '0'.toNat))
    omega

/-- Digits are read on top of a value if all of them are digits and the whole value fits. -/
theorem digits_eq_ok_iff (hv : value < bound) :
    digits value text = .ok n ↔
      (∀ c ∈ text, c.isDigit = true) ∧ Nat.ofDigitChars 10 text value = n ∧ n < bound := by
  induction text generalizing value with
  | nil =>
    simp only [digits, Except.ok.injEq, List.not_mem_nil, false_implies, implies_true, true_and,
      Nat.ofDigitChars_nil]
    constructor
    · rintro rfl
      exact ⟨rfl, hv⟩
    · exact fun h => h.1
  | cons c text ih =>
    rw [digits, digit?_eq, List.forall_mem_cons, Nat.ofDigitChars_cons]
    cases hc : c.isDigit with
    | false => simp
    | true =>
      have hcomm : value * 10 + (c.toNat - '0'.toNat) = 10 * value + (c.toNat - '0'.toNat) := by
        omega
      simp only [if_true, hcomm, true_and]
      split
      · next hb => exact ih hb
      · next hb =>
        -- the value of all the digits is no smaller than that of those read so far
        have hle := le_ofDigitChars text (10 * value + (c.toNat - '0'.toNat))
        simp only [reduceCtorEq, false_iff, not_and]
        intro _ hn
        omega

theorem digits_zero_eq_ok_iff (h : text ≠ []) : digits 0 text = .ok n ↔ Decimal text n := by
  rw [digits_eq_ok_iff (by decide)]
  constructor
  · rintro ⟨hd, hv, hb⟩
    exact ⟨h, hd, hv, hb⟩
  · rintro ⟨-, hd, hv, hb⟩
    exact ⟨hd, hv, hb⟩

theorem not_decimal_plus (rest : List Char) : ¬Decimal ('+' :: rest) n := by
  intro h
  have hplus := h.digits '+' List.mem_cons_self
  simp at hplus

/-- Digits alone are a numeral by their own value only. -/
theorem Denotes.decimal (h : Denotes text n) (hd : ∀ c ∈ text, c.isDigit = true) :
    Decimal text n := by
  rcases h with h | ⟨rest, rfl, -⟩
  · exact h
  · have hplus := hd '+' List.mem_cons_self
    simp at hplus

/-- Exactly the numerals are read, each as the number it denotes. -/
theorem parse_eq_ok_iff : parse text = .ok n ↔ Denotes text n := by
  fun_cases parse text with
  | case1 =>
    simp only [reduceCtorEq, false_iff]
    rintro (h | ⟨rest, h, -⟩)
    · exact h.nonempty rfl
    · cases h
  | case2 =>
    simp only [reduceCtorEq, false_iff]
    rintro (h | ⟨rest, h, hd⟩)
    · exact not_decimal_plus [] h
    · exact hd.nonempty (List.cons.inj h).2.symm
  | case3 rest hrest =>
    rw [digits_zero_eq_ok_iff hrest]
    constructor
    · exact fun h => .inr ⟨rest, rfl, h⟩
    · rintro (h | ⟨others, h, hd⟩)
      · exact absurd h (not_decimal_plus rest)
      · rwa [(List.cons.inj h).2]
  | case4 _ hempty _ hplus =>
    rw [digits_zero_eq_ok_iff hempty]
    constructor
    · exact .inl
    · rintro (h | ⟨rest, h, -⟩)
      · exact h
      · exact absurd h (hplus rest)

theorem parse?_eq_some_iff : parse? text = some n ↔ Denotes text n := by
  rw [← parse_eq_ok_iff, parse?]
  cases parse text <;> simp [Except.toOption]

/-- A number below the bound denotes itself when it is written in base ten. -/
theorem decimal_toDigits (h : n < bound) : Decimal (Nat.toDigits 10 n) n where
  nonempty := Nat.toDigits_ne_nil
  digits c hc := Nat.isDigit_of_mem_toDigits (by decide) (by decide) hc
  value := Nat.ofDigitChars_ten_toDigits
  bounded := h

end ScrewLang.Numeral
