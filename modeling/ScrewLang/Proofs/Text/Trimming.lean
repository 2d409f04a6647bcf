import Mathlib.Data.List.DropRight
import ScrewLang.Text.Blank

/-!
# Trimming a text

Trimming takes away the blanks at both ends of a text and nothing else: blanks added there do not
matter, and a character that is not blank stops the trimming from either side.
-/

namespace ScrewLang.Text

variable {text before after blanks : List Char} {c : Char}

/-- A text of blanks only. -/
def Blanks (text : List Char) : Prop :=
  ∀ c ∈ text, isBlank c = true

theorem blanks_nil : Blanks [] := by simp [Blanks]

/-- A text is blank, or it has a first character that is not. -/
theorem blanks_or_exists (text : List Char) :
    Blanks text ∨ ∃ front c rest, text = front ++ c :: rest ∧ Blanks front ∧ isBlank c = false := by
  induction text with
  | nil => exact .inl blanks_nil
  | cons d text ih =>
    cases hd : isBlank d with
    | false => exact .inr ⟨[], d, text, rfl, blanks_nil, hd⟩
    | true =>
      rcases ih with h | ⟨front, c, rest, rfl, hf, hc⟩
      · exact .inl (List.forall_mem_cons.mpr ⟨hd, h⟩)
      · exact .inr ⟨d :: front, c, rest, rfl, List.forall_mem_cons.mpr ⟨hd, hf⟩, hc⟩

/-! ### Each end for itself -/

theorem trimStart_append_of_blanks (h : Blanks blanks) (text : List Char) :
    trimStart (blanks ++ text) = trimStart text :=
  List.dropWhile_append_of_pos h

theorem trimStart_of_blanks (h : Blanks blanks) : trimStart blanks = [] := by
  rw [trimStart, List.dropWhile_eq_nil_iff]
  exact h

/-- Trimming from the left does not get past a character that is not blank. -/
theorem trimStart_append_cons (hc : isBlank c = false) (before after : List Char) :
    trimStart (before ++ c :: after) = trimStart before ++ c :: after := by
  induction before with
  | nil => simp [trimStart, hc]
  | cons d before ih =>
    cases hd : isBlank d with
    | true => simpa [trimStart, hd] using ih
    | false => simp [trimStart, hd]

theorem trimEnd_eq_reverse (text : List Char) : trimEnd text = (trimStart text.reverse).reverse :=
  rfl

theorem trimEnd_append_of_blanks (h : Blanks blanks) (text : List Char) :
    trimEnd (text ++ blanks) = trimEnd text := by
  have hreverse : Blanks blanks.reverse := by simpa [Blanks] using h
  rw [trimEnd_eq_reverse, List.reverse_append, trimStart_append_of_blanks hreverse,
    ← trimEnd_eq_reverse]

theorem trimEnd_of_blanks (h : Blanks blanks) : trimEnd blanks = [] := by
  have hnone := trimEnd_append_of_blanks h []
  rwa [List.nil_append] at hnone

/-- Trimming from the right does not get past a character that is not blank. -/
theorem trimEnd_append_cons (hc : isBlank c = false) (before after : List Char) :
    trimEnd (before ++ c :: after) = before ++ c :: trimEnd after := by
  have hreverse : (before ++ c :: after).reverse = after.reverse ++ c :: before.reverse := by simp
  rw [trimEnd_eq_reverse, hreverse, trimStart_append_cons hc, trimEnd_eq_reverse]
  simp

/-! ### Both ends -/

/-- Trimming both ends of a text that is not blank trims what stands on either side of a character
that is not. -/
theorem trim_append_cons (hc : isBlank c = false) (before after : List Char) :
    trim (before ++ c :: after) = trimStart before ++ c :: trimEnd after := by
  rw [trim, trimStart_append_cons hc, trimEnd_append_cons hc]

theorem trim_of_blanks (h : Blanks text) : trim text = [] := by
  rw [trim, trimStart_of_blanks h]
  rfl

theorem blanks_of_trim_eq_nil (h : trim text = []) : Blanks text := by
  rcases blanks_or_exists text with hb | ⟨front, c, rest, rfl, -, hc⟩
  · exact hb
  · simp [trim_append_cons hc] at h

/-- What follows a text that is not blank follows what trimming leaves of it, and the blanks cut
off. -/
theorem exists_trim_append {content : List Char} (h : trim text = c :: content) :
    ∃ blanks, ∀ more, trim (text ++ more) = c :: trimEnd (content ++ blanks ++ more) := by
  rcases blanks_or_exists text with hb | ⟨front, d, rest, rfl, hf, hd⟩
  · rw [trim_of_blanks hb] at h
    cases h
  · have hcut : ∀ more, trim (front ++ d :: rest ++ more) = d :: trimEnd (rest ++ more) := by
      intro more
      rw [List.append_assoc, List.cons_append, trim_append_cons hd, trimStart_of_blanks hf,
        List.nil_append]
    have hcontent := hcut []
    rw [List.append_nil, List.append_nil, h, List.cons.injEq] at hcontent
    obtain ⟨rfl, rfl⟩ := hcontent
    obtain ⟨blanks, hblanks⟩ : trimEnd rest <+: rest := List.rdropWhile_prefix _ _
    exact ⟨blanks, by rwa [hblanks]⟩

theorem head?_trim (text : List Char) : (trim text).head? = (trimStart text).head? := by
  rcases blanks_or_exists text with h | ⟨front, c, rest, rfl, hf, hc⟩
  · rw [trim_of_blanks h, trimStart_of_blanks h]
  · rw [trim_append_cons hc, trimStart_append_cons hc, trimStart_of_blanks hf]
    rfl

/-- Blanks added at the ends of a text are trimmed away. -/
theorem trim_append_blanks (hb : Blanks before) (ha : Blanks after) (text : List Char) :
    trim (before ++ text ++ after) = trim text := by
  rw [List.append_assoc, trim, trimStart_append_of_blanks hb]
  rcases blanks_or_exists text with h | ⟨front, c, rest, rfl, -, hc⟩
  · have hall : Blanks (text ++ after) := by
      intro c hm
      rcases List.mem_append.mp hm with hm | hm
      · exact h c hm
      · exact ha c hm
    rw [trim_of_blanks h, trimStart_of_blanks hall]
    rfl
  · rw [List.append_assoc, List.cons_append, trimStart_append_cons hc, trim_append_cons hc,
      trimEnd_append_cons hc, trimEnd_append_of_blanks ha]

theorem trim_append_right (h : Blanks after) (text : List Char) :
    trim (text ++ after) = trim text :=
  trim_append_blanks blanks_nil h text

theorem trim_trimStart (text : List Char) : trim (trimStart text) = trim text := by
  rw [trim, trim, trimStart, trimStart, List.dropWhile_idempotent]

theorem trim_trimEnd (text : List Char) : trim (trimEnd text) = trim text := by
  rcases blanks_or_exists text with h | ⟨front, c, rest, rfl, -, hc⟩
  · rw [trimEnd_of_blanks h, trim_of_blanks h]
    rfl
  · have hidem : trimEnd (trimEnd rest) = trimEnd rest := List.rdropWhile_idempotent isBlank rest
    rw [trimEnd_append_cons hc, trim_append_cons hc, trim_append_cons hc, hidem]

theorem trim_trim (text : List Char) : trim (trim text) = trim text := by
  calc
    trim (trim text) = trim (trimEnd (trimStart text)) := rfl
    _ = trim text := by rw [trim_trimEnd, trim_trimStart]

theorem mem_of_mem_trimStart (h : c ∈ trimStart text) : c ∈ text :=
  (List.dropWhile_suffix isBlank).mem h

theorem mem_of_mem_trim (h : c ∈ trim text) : c ∈ text :=
  mem_of_mem_trimStart ((List.rdropWhile_prefix isBlank _).mem h)

/-- Trimming leaves a text without blanks as it is. -/
theorem trim_of_no_blank (h : ∀ c ∈ text, isBlank c = false) : trim text = text := by
  have hstart : ∀ text : List Char, (∀ c ∈ text, isBlank c = false) → trimStart text = text := by
    intro text h
    cases text with
    | nil => rfl
    | cons c text => simp [trimStart, h c List.mem_cons_self]
  rw [trim, hstart text h, trimEnd_eq_reverse, hstart text.reverse (by simpa using h),
    List.reverse_reverse]

end ScrewLang.Text
