import ScrewLang.Source.Scan

/-!
# The regions of a text

The scan carries a mode from byte to byte. Where it is in code mode can be said of the text alone:
no terminator stands up to there, and every comment mark up to there has been followed by a newline.
-/

namespace ScrewLang

variable {source : List UInt8} {offset : Nat} {b : UInt8}

/-- The location after a byte of a text is the next one. -/
theorem Location.ofOffset_succ (h : source[offset]? = some b) :
    Location.ofOffset source (offset + 1) = (Location.ofOffset source offset).advance b := by
  simp [ofOffset, advance, List.take_add_one, h]

namespace Scan

/-- No terminator stands up to an offset. -/
def Unended (source : List UInt8) (offset : Nat) : Prop :=
  ∀ k ≤ offset, source[k]? ≠ some terminator

/-- Every comment opened up to an offset is closed up to it. -/
def Uncommented (source : List UInt8) (offset : Nat) : Prop :=
  ∀ mark ≤ offset, source[mark]? = some commentMark →
    ∃ close ≤ offset, mark < close ∧ source[close]? = some newline

/-- An offset is before the end of the code and outside comments. -/
def Visible (source : List UInt8) (offset : Nat) : Prop :=
  Unended source offset ∧ Uncommented source offset

instance (source : List UInt8) (offset : Nat) : Decidable (Unended source offset) :=
  inferInstanceAs (Decidable (∀ k ≤ offset, source[k]? ≠ some terminator))

instance (source : List UInt8) (offset : Nat) : Decidable (Uncommented source offset) :=
  inferInstanceAs (Decidable (∀ mark ≤ offset, source[mark]? = some commentMark →
    ∃ close ≤ offset, mark < close ∧ source[close]? = some newline))

instance (source : List UInt8) (offset : Nat) : Decidable (Visible source offset) :=
  inferInstanceAs (Decidable (Unended source offset ∧ Uncommented source offset))

theorem Unended.of_le {earlier : Nat} (h : Unended source offset) (hl : earlier ≤ offset) :
    Unended source earlier := by
  intro k hk
  exact h k (Nat.le_trans hk hl)

/-- The bytes before the first terminator. -/
theorem getElem?_takeWhile_eq_some_iff {b : UInt8} :
    (source.takeWhile (· != terminator))[offset]? = some b ↔
      source[offset]? = some b ∧ Unended source offset := by
  induction source generalizing offset with
  | nil => simp
  | cons first rest ih =>
    by_cases hf : first = terminator
    · subst hf
      have hu : ¬Unended (terminator :: rest) offset := by
        intro hu
        exact hu 0 (Nat.zero_le offset) rfl
      simp [hu]
    · rw [List.takeWhile_cons_of_pos (by simpa using hf)]
      cases offset with
      | zero => simp [Unended, hf]
      | succ offset =>
        have hu : Unended (first :: rest) (offset + 1) ↔ Unended rest offset := by
          simp only [Unended, ← Nat.lt_succ_iff, Nat.forall_lt_succ_left]
          simp [hf]
        rw [List.getElem?_cons_succ, List.getElem?_cons_succ, ih, hu]

/-- The mode of the scan when it comes to an offset. -/
def modeAt (source : List UInt8) (offset : Nat) : Mode :=
  (source.take offset).foldl Mode.next .code

theorem modeAt_succ (h : source[offset]? = some b) :
    modeAt source (offset + 1) = (modeAt source offset).next b := by
  simp [modeAt, List.take_add_one, h]

theorem Mode.next_eq_ended_iff {mode : Mode} :
    mode.next b = .ended ↔ mode = .ended ∨ b = terminator := by
  unfold next
  split
  · next h => simp [h]
  · next h =>
    simp only [h, iff_false]
    rw [not_or] at h
    split
    · simp
    · split
      · simp
      · exact h.1

theorem Mode.next_eq_code_iff {mode : Mode} :
    mode.next b = .code ↔
      (mode ≠ .ended ∧ b ≠ terminator) ∧ b ≠ commentMark ∧ (b = newline ∨ mode = .code) := by
  rw [← not_or, next]
  split
  · next h => simp [h]
  · next h =>
    simp only [h, not_false_eq_true, true_and]
    split
    · next hc => simp [hc]
    · next hc =>
      split
      · next hn =>
        subst hn
        simp [hc]
      · next hn => simp [hn, hc]

/-- The scan has come to the end once it has passed a terminator. -/
theorem modeAt_eq_ended_iff (h : offset ≤ source.length) :
    modeAt source offset = .ended ↔ ∃ k < offset, source[k]? = some terminator := by
  induction offset with
  | zero => simp [modeAt]
  | succ offset ih =>
    have hb := List.getElem?_eq_getElem h
    rw [modeAt_succ hb, Mode.next_eq_ended_iff, ih (Nat.le_of_succ_le h)]
    constructor
    · rintro (⟨k, hk, ht⟩ | ht)
      · exact ⟨k, Nat.lt_succ_of_lt hk, ht⟩
      · exact ⟨offset, Nat.lt_succ_self offset, by rw [hb, ht]⟩
    · rintro ⟨k, hk, ht⟩
      by_cases he : k = offset
      · subst he
        rw [hb] at ht
        exact .inr (Option.some.inj ht)
      · exact .inl ⟨k, by omega, ht⟩

/-- The scan is in code mode where it has passed no terminator and every comment mark that it has
passed is followed by a newline. -/
theorem modeAt_eq_code_iff (h : offset ≤ source.length) :
    modeAt source offset = .code ↔
      (¬∃ k < offset, source[k]? = some terminator) ∧
        ∀ mark < offset, source[mark]? = some commentMark →
          ∃ close < offset, mark < close ∧ source[close]? = some newline := by
  induction offset with
  | zero => simp [modeAt]
  | succ offset ih =>
    have hb := List.getElem?_eq_getElem h
    have hended := modeAt_eq_ended_iff h
    rw [modeAt_succ hb] at hended ⊢
    rw [Mode.next_eq_code_iff, ← not_or, ← Mode.next_eq_ended_iff, hended]
    apply and_congr_right
    intro hterminator
    rw [ih (Nat.le_of_succ_le h)]
    constructor
    · rintro ⟨hmark, hlast⟩ mark hm hc
      have hne : mark ≠ offset := by
        rintro rfl
        rw [hb] at hc
        exact hmark (Option.some.inj hc)
      rcases hlast with hn | ⟨-, hclosed⟩
      · exact ⟨offset, by omega, by omega, by rw [hb, hn]⟩
      · obtain ⟨close, hl, hlt, hn⟩ := hclosed mark (by omega) hc
        exact ⟨close, by omega, hlt, hn⟩
    · intro hclosed
      constructor
      · intro hc
        obtain ⟨close, hl, hlt, -⟩ := hclosed offset (by omega) (by rw [hb, hc])
        omega
      · by_cases hn : source[offset] = newline
        · exact .inl hn
        · refine .inr ⟨?_, ?_⟩
          · rintro ⟨k, hk, ht⟩
            exact hterminator ⟨k, by omega, ht⟩
          · intro mark hm hc
            obtain ⟨close, hl, hlt, hclose⟩ := hclosed mark (by omega) hc
            have hne : close ≠ offset := by
              rintro rfl
              rw [hb] at hclose
              exact hn (Option.some.inj hclose)
            exact ⟨close, by omega, hlt, hclose⟩

/-- The bytes that leave the scan in code mode are the visible ones. -/
theorem modeAt_succ_eq_code_iff (h : offset < source.length) :
    modeAt source (offset + 1) = .code ↔ Visible source offset := by
  rw [modeAt_eq_code_iff h]
  simp only [Visible, Unended, Uncommented, Nat.lt_succ_iff, not_exists, not_and, ne_eq]

end Scan

end ScrewLang
