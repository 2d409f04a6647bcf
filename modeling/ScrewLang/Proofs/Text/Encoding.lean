import ScrewLang.Text.Utf8

/-!
# Bytes of characters

A character below `0x80` is its own single byte. All bytes of any other character are `0x80` or
above, so none of them reads as a character of its own.
-/

namespace ScrewLang.Text

/-- A character is plain when it is encoded by one byte. -/
def Plain (c : Char) : Prop :=
  c.toNat < 0x80

instance (c : Char) : Decidable (Plain c) :=
  inferInstanceAs (Decidable (c.toNat < 0x80))

theorem utf8EncodeChar_of_plain {c : Char} (h : Plain c) :
    String.utf8EncodeChar c = [UInt8.ofNat c.toNat] := by
  have hv : c.val.toNat ≤ 127 := Nat.le_of_lt_succ h
  simp only [String.utf8EncodeChar, hv, ↓reduceIte]
  rfl

/-- Every byte of a character that is not plain is above all plain ones. -/
theorem high_of_mem_utf8EncodeChar {c : Char} {b : UInt8} (h : ¬Plain c)
    (hb : b ∈ String.utf8EncodeChar c) : 0x80 ≤ b.toNat := by
  have hv : ¬c.val.toNat ≤ 127 := fun hle => h (Nat.lt_succ_of_le hle)
  simp only [String.utf8EncodeChar, hv, ↓reduceIte] at hb
  split at hb
  · simp only [List.mem_cons, List.not_mem_nil, or_false] at hb
    rcases hb with rfl | rfl <;> simp only [UInt8.toNat_ofNat'] <;> omega
  · split at hb
    · simp only [List.mem_cons, List.not_mem_nil, or_false] at hb
      rcases hb with rfl | rfl | rfl <;> simp only [UInt8.toNat_ofNat'] <;> omega
    · simp only [List.mem_cons, List.not_mem_nil, or_false] at hb
      rcases hb with rfl | rfl | rfl | rfl <;> simp only [UInt8.toNat_ofNat'] <;> omega

/-- A plain character is the only one with its byte. -/
theorem mem_utf8EncodeChar_iff {c d : Char} (hd : Plain d) :
    UInt8.ofNat d.toNat ∈ String.utf8EncodeChar c ↔ c = d := by
  have hbyte {e : Char} (he : Plain e) : (UInt8.ofNat e.toNat).toNat = e.toNat :=
    UInt8.toNat_ofNat_of_lt' (Nat.lt_trans he (by decide))
  constructor
  · intro hm
    by_cases hc : Plain c
    · rw [utf8EncodeChar_of_plain hc, List.mem_singleton, ← UInt8.toNat_inj, hbyte hd,
        hbyte hc] at hm
      exact Char.toNat_inj.mp hm.symm
    · have hhigh := high_of_mem_utf8EncodeChar hc hm
      rw [hbyte hd] at hhigh
      exact absurd hd (Nat.not_lt_of_le hhigh)
  · rintro rfl
    rw [utf8EncodeChar_of_plain hd]
    exact List.mem_singleton_self _

/-- A text has a plain character exactly when its bytes have that of the character. -/
theorem mem_bytes_iff {d : Char} (hd : Plain d) (text : String) :
    UInt8.ofNat d.toNat ∈ bytes text ↔ d ∈ text.toList := by
  simp only [bytes, List.mem_flatMap, mem_utf8EncodeChar_iff hd, exists_eq_right]

end ScrewLang.Text
