import ScrewLang.Program.Basic

/-!
# The code bytes that a scan finds

Every byte that a scan finds stands in the text at the offset that it is found with, and the bytes
come in the order of the text.
-/

namespace ScrewLang

namespace Scan

variable {location : Location} {mode : Mode} {source : List UInt8} {item : Item}

/-- The bytes of code that write symbols. -/
def instructions (scan : Scan) : List Item :=
  scan.items.filter fun item => (Symbol.ofByte? item.byte).isSome

/-- A byte is found where it stands. -/
theorem exists_offset_of_mem_onward (h : item ∈ (onward location mode source).items) :
    ∃ k, item.location.offset = location.offset + k ∧ source[k]? = some item.byte := by
  induction source generalizing location mode with
  | nil => cases h
  | cons b rest ih =>
    have later (hr : item ∈ (onward (location.advance b) (mode.next b) rest).items) :
        ∃ k, item.location.offset = location.offset + k ∧ (b :: rest)[k]? = some item.byte := by
      obtain ⟨k, ho, hk⟩ := ih hr
      have ha : (location.advance b).offset = location.offset + 1 := rfl
      exact ⟨k + 1, by omega, hk⟩
    simp only [onward] at h
    split at h
    · rcases List.mem_cons.mp h with rfl | hr
      · exact ⟨0, rfl, rfl⟩
      · exact later hr
    · exact later h

/-- Bytes are found in the order of the text. -/
theorem pairwise_offset_onward (location : Location) (mode : Mode) (source : List UInt8) :
    (onward location mode source).items.Pairwise
      fun a b => a.location.offset < b.location.offset := by
  induction source generalizing location mode with
  | nil => exact .nil
  | cons b rest ih =>
    simp only [onward]
    split
    · refine List.pairwise_cons.mpr ⟨?_, ih _ _⟩
      intro item hm
      obtain ⟨k, ho, -⟩ := exists_offset_of_mem_onward hm
      have ha : (location.advance b).offset = location.offset + 1 := rfl
      show location.offset < item.location.offset
      omega
    · exact ih _ _

/-- The place of an instruction is the number of instructions that stand before it. -/
theorem length_filter_instructions {place : Nat}
    (h : (ofSource source).instructions[place]? = some item) :
    ((ofSource source).instructions.filter
      fun other => other.location.offset < item.location.offset).length = place := by
  have hs : (ofSource source).instructions.Pairwise
      fun a b => a.location.offset < b.location.offset :=
    (pairwise_offset_onward _ _ _).filter _
  generalize (ofSource source).instructions = items at h hs
  obtain ⟨hl, hi⟩ := List.getElem?_eq_some_iff.mp h
  have hsplit : items = items.take place ++ item :: items.drop (place + 1) := by
    rw [← hi, List.getElem_cons_drop, List.take_append_drop]
  rw [hsplit, List.pairwise_append, List.pairwise_cons] at hs
  obtain ⟨-, ⟨hafter, -⟩, hbefore⟩ := hs
  rw [hsplit, List.filter_append, List.filter_cons_of_neg (by simp), List.filter_eq_self.mpr,
    List.filter_eq_nil_iff.mpr, List.append_nil, List.length_take_of_le (Nat.le_of_lt hl)]
  · intro other ho
    have := hafter other ho
    simp only [decide_eq_true_eq]
    omega
  · intro other ho
    simpa using hbefore other ho item List.mem_cons_self

end Scan

/-- The symbols of a program come from the instructions that the scan finds, one from each. -/
theorem Program.symbols_ofSource (source : List UInt8) (place : Nat) :
    (Program.ofSource source).symbols[place]? =
      (Scan.ofSource source).instructions[place]?.bind fun item => Symbol.ofByte? item.byte := by
  rw [Program.ofSource, Scan.instructions, List.getElem?_toArray]
  induction (Scan.ofSource source).items generalizing place with
  | nil => rfl
  | cons item items ih =>
    cases hs : Symbol.ofByte? item.byte with
    | none =>
      simp only [List.filterMap_cons, List.filter_cons, hs, Option.isSome_none, Bool.false_eq_true,
        ↓reduceIte, ih]
    | some symbol =>
      simp only [List.filterMap_cons, List.filter_cons, hs, Option.isSome_some, ↓reduceIte]
      cases place with
      | zero => simp [hs]
      | succ place => simpa using ih place

end ScrewLang
