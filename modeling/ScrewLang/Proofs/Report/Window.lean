import Mathlib.Order.Monotone.Basic
import ScrewLang.Report.Window

/-!
# The window around a place

What a message shows of a text is cut out by byte offsets, and a text can be cut only between
characters. The offsets are those of two characters, or of the end where there is no such character,
and the first never comes behind the second. So there is a window around every place, also around
one that lies behind the text, and it holds the characters near the place and no others.
-/

namespace ScrewLang

namespace Text

variable {text front back : List Char} {offset start finish : Nat}

/-! ### Cuts between characters -/

/-- An offset between two characters of a text, or at one of its ends. -/
def IsBoundary (text : List Char) (offset : Nat) : Prop :=
  String.Pos.Raw.IsValid (String.ofList text) ⟨offset⟩

theorem utf8ByteSize_ofList (text : List Char) :
    (String.ofList text).utf8ByteSize = byteLength text := by
  rw [← String.size_toByteArray, String.toByteArray_ofList, List.utf8Encode, List.size_toByteArray,
    byteLength]

/-- The characters before a boundary have as many bytes as its offset says. -/
theorem isBoundary_iff :
    IsBoundary text offset ↔ ∃ front back, text = front ++ back ∧ byteLength front = offset := by
  rw [IsBoundary, String.Pos.Raw.isValid_ofList]
  constructor
  · rintro ⟨index, hoffset⟩
    refine ⟨text.take index, text.drop index, (List.take_append_drop index text).symm, ?_⟩
    rw [← utf8ByteSize_ofList]
    exact hoffset.symm
  · rintro ⟨front, back, rfl, rfl⟩
    exact ⟨front.length, by rw [List.take_left, utf8ByteSize_ofList]⟩

/-- A cut leaves the two parts that the offset tells. -/
theorem cut?_eq_some_iff :
    cut? text offset = some (front, back) ↔ text = front ++ back ∧ byteLength front = offset := by
  constructor
  · intro h
    induction text generalizing offset front with
    | nil =>
      cases offset with
      | zero => cases h; exact ⟨rfl, rfl⟩
      | succ offset => cases h
    | cons c rest ih =>
      cases offset with
      | zero => cases h; exact ⟨rfl, rfl⟩
      | succ offset =>
        rw [cut?] at h
        split at h
        · next hsize =>
          obtain ⟨parts, hcut, hparts⟩ := Option.map_eq_some_iff.mp h
          obtain ⟨rfl, rfl⟩ := Prod.mk.inj hparts
          obtain ⟨hrest, hlength⟩ := ih hcut
          refine ⟨by rw [List.cons_append, ← hrest], ?_⟩
          rw [byteLength_cons, hlength]
          omega
        · cases h
  · rintro ⟨rfl, rfl⟩
    exact cut?_append front back

/-- The part between two offsets stands behind as many bytes as the first one says, and ends where
the second one says. -/
theorem slice?_eq_some_iff {part : List Char} :
    slice? text start finish = some part ↔
      ∃ front back, text = front ++ (part ++ back) ∧ byteLength front = start ∧
        byteLength (front ++ part) = finish := by
  constructor
  · intro h
    rw [slice?] at h
    split at h
    · next hle =>
      obtain ⟨⟨front, rest⟩, hcut, hpart⟩ := Option.bind_eq_some_iff.mp h
      obtain ⟨⟨between, back⟩, hrest, rfl⟩ := Option.map_eq_some_iff.mp hpart
      obtain ⟨rfl, rfl⟩ := cut?_eq_some_iff.mp hcut
      obtain ⟨rfl, hlength⟩ := cut?_eq_some_iff.mp hrest
      refine ⟨front, back, rfl, rfl, ?_⟩
      rw [byteLength_append, hlength]
      omega
    · cases h
  · rintro ⟨front, back, rfl, rfl, rfl⟩
    exact slice?_append front part back

/-- Two boundaries in order have a part of the text between them, and no other offsets do. -/
theorem isSome_slice?_iff :
    (slice? text start finish).isSome ↔
      start ≤ finish ∧ IsBoundary text start ∧ IsBoundary text finish := by
  rw [Option.isSome_iff_exists, isBoundary_iff, isBoundary_iff]
  simp only [slice?_eq_some_iff]
  constructor
  · rintro ⟨part, front, back, rfl, rfl, rfl⟩
    refine ⟨?_, ⟨front, part ++ back, rfl, rfl⟩, front ++ part, back, by simp, rfl⟩
    rw [byteLength_append]
    exact Nat.le_add_right _ _
  · rintro ⟨hle, ⟨front, rest, rfl, rfl⟩, longer, back, htext, rfl⟩
    rcases List.append_eq_append_iff.mp htext with ⟨part, rfl, rfl⟩ | ⟨part, rfl, rfl⟩
    · exact ⟨part, front, back, rfl, rfl, rfl⟩
    · have hnothing : byteLength part = 0 := by
        rw [byteLength_append] at hle
        omega
      refine ⟨[], longer ++ part, rest, rfl, rfl, ?_⟩
      rw [List.append_nil, byteLength_append, hnothing, Nat.add_zero]

theorem isBoundary_byteOffset (text : List Char) (index : Nat) :
    IsBoundary text (byteOffset text index) := by
  rw [isBoundary_iff, byteOffset_eq]
  exact ⟨text.take index, text.drop index, (List.take_append_drop index text).symm, rfl⟩

/-- A character further on begins at a larger offset, or at the same if there is none. -/
theorem monotone_byteOffset (text : List Char) : Monotone (byteOffset text) := by
  apply monotone_nat_of_le_succ
  intro index
  rw [byteOffset_eq, byteOffset_eq, List.take_add_one, byteLength_append]
  exact Nat.le_add_right _ _

end Text

namespace Report

/-! ### Characters near a place -/

/-- The characters of a text with an index at most 32 away from a place, in order. -/
def nearby (text : List Char) (place : Nat) : List Char :=
  (text.zipIdx.filter fun entry => place ≤ entry.2 + 32 ∧ entry.2 ≤ place + 32).map Prod.fst

/-- The characters with indices in a range, counted from `base`, are taken out as one part. -/
theorem map_filter_zipIdx (text : List Char) (base low high : Nat) :
    ((text.zipIdx base).filter fun entry => low ≤ entry.2 ∧ entry.2 < high).map Prod.fst =
      (text.take (high - base)).drop (low - base) := by
  induction text generalizing base with
  | nil => simp
  | cons c rest ih =>
    by_cases hin : low ≤ base ∧ base < high
    · have hhigh : high - base = high - (base + 1) + 1 := by omega
      have hlow : low - base = 0 ∧ low - (base + 1) = 0 := by omega
      rw [List.zipIdx_cons, List.filter_cons_of_pos (by simpa using hin), List.map_cons, ih, hhigh,
        hlow.1, hlow.2, List.take_succ_cons, List.drop_zero, List.drop_zero]
    · rw [List.zipIdx_cons, List.filter_cons_of_neg (by simpa using hin), ih]
      by_cases hhigh : high ≤ base
      · have hnone : high - base = 0 ∧ high - (base + 1) = 0 := by omega
        rw [hnone.1, hnone.2, List.take_zero, List.take_zero, List.drop_nil, List.drop_nil]
      · have hafter : high - base = high - (base + 1) + 1 ∧ low - base = low - (base + 1) + 1 := by
          omega
        rw [hafter.1, hafter.2, List.take_succ_cons, List.drop_succ_cons]

/-- The characters near a place are those that are cut out around it. -/
theorem nearby_eq (text : List Char) (place : Nat) :
    nearby text place = (text.take (place + reach + 1)).drop (place - reach) := by
  have hrange : (fun entry : Char × Nat => decide (place ≤ entry.2 + 32 ∧ entry.2 ≤ place + 32)) =
      fun entry => decide (place - reach ≤ entry.2 ∧ entry.2 < place + reach + 1) := by
    funext entry
    rw [decide_eq_decide, reach]
    omega
  rw [nearby, hrange, map_filter_zipIdx, Nat.sub_zero, Nat.sub_zero]

/-- There are none behind the end of the text, more than 32 characters away. -/
theorem nearby_eq_nil_iff (text : List Char) (place : Nat) :
    nearby text place = [] ↔ text = [] ∨ text.length + 32 ≤ place := by
  rw [nearby_eq, List.drop_eq_nil_iff, List.length_take, ← List.length_eq_zero_iff, reach]
  omega

theorem length_nearby_le (text : List Char) (place : Nat) : (nearby text place).length ≤ 65 := by
  rw [nearby_eq, List.length_drop, List.length_take, reach]
  omega

/-- The window around a place is well defined. The byte offset of an index is the length of as many
characters as there are up to it; it lies between two characters and grows with the index. For a
place up to `2 ^ 63`, in the text or behind it, no index is too large for a word of 64 bits, and the
offsets are in order and between characters, so that there is a part of the text to show: the
characters at most 32 away from the place, of which there are 65 at most and none if the place is
further behind the text. Without colours the window is this part behind two blanks, and a caret below
the place. -/
theorem window_is_well_defined (text : List Char) :
    (∀ index, Text.byteOffset text index = Text.byteLength (text.take (min index text.length)) ∧
      Text.IsBoundary text (Text.byteOffset text index)) ∧
    Monotone (Text.byteOffset text) ∧
    ∀ place ≤ 0x8000000000000000,
      let start := Text.byteOffset text (place - 32)
      let finish := Text.byteOffset text (min (place + 33) text.length)
      place + 33 < 0x10000000000000000 ∧
      (start ≤ finish ∧ Text.IsBoundary text start ∧ Text.IsBoundary text finish) ∧
      surroundings? text place = Text.slice? text start finish ∧
      Text.slice? text start finish = some (nearby text place) ∧
      (nearby text place).length ≤ 65 ∧
      (nearby text place = [] ↔ text = [] ∨ text.length + 32 ≤ place) ∧
      ∀ palette, (window ⟨false, palette⟩ text place).toList =
        [' ', ' '] ++ nearby text place ++ '\n' :: List.replicate (2 + min place 32) ' ' ++
          ['^', '\n'] := by
  refine ⟨fun index => ⟨?_, Text.isBoundary_byteOffset text index⟩, Text.monotone_byteOffset text, ?_⟩
  · rw [Text.byteOffset_eq, List.take_eq_take_min]
  intro place hplace start finish
  have hslice : Text.slice? text start finish = some (nearby text place) := by
    rw [nearby_eq]
    exact surroundings?_eq text place
  refine ⟨by omega, ?_, rfl, hslice, length_nearby_le text place, nearby_eq_nil_iff text place, ?_⟩
  · rw [← Text.isSome_slice?_iff, hslice]
    rfl
  · intro palette
    have hblanks : List.replicate (2 + min place 32) ' ' =
        [' ', ' '] ++ List.replicate (min place 32) ' ' :=
      List.replicate_append_replicate.symm
    have hcaret : Style.caret ⟨false, palette⟩ = "^" := rfl
    have hshown : surroundings text place = nearby text place := by
      rw [surroundings_eq, nearby_eq]
    simp [window, hshown, hblanks, hcaret, reach]

/-- A place in a text with a character of two bytes, and one far behind that text. -/
theorem window_is_well_defined_far_behind :
    let text := "aé+".toList
    let far := 0x8000000000000000
    (2 ≤ far ∧ Text.byteOffset text 2 = 3 ∧ Text.IsBoundary text 3 ∧
        surroundings? text 2 = some text ∧
        (window .plain text 2).toList = "  aé+\n    ^\n".toList) ∧
      far ≤ 0x8000000000000000 ∧ far + 33 < 0x10000000000000000 ∧
      surroundings? text far = some [] ∧
      (window .plain text far).toList =
        [' ', ' ', '\n'] ++ List.replicate 34 ' ' ++ ['^', '\n'] := by
  intro text far
  obtain ⟨hoffset, -, hplace⟩ := window_is_well_defined text
  have htwo : Text.byteOffset text 2 = 3 := by decide
  have hnear : nearby text 2 = text := by decide
  have hfar : nearby text far = [] := (nearby_eq_nil_iff text far).mpr (.inr (by decide))
  obtain ⟨-, -, hcut, hslice, -, -, hwindow⟩ := hplace 2 (by decide)
  obtain ⟨hword, -, hcutFar, hsliceFar, -, -, hwindowFar⟩ := hplace far (Nat.le_refl far)
  rw [hnear] at hslice hwindow
  rw [hfar] at hsliceFar hwindowFar
  refine ⟨⟨by decide, htwo, htwo ▸ (hoffset 2).2, hcut.trans hslice, ?_⟩, Nat.le_refl far, hword,
    hcutFar.trans hsliceFar, ?_⟩
  · exact (hwindow Palette.default).trans (by decide)
  · exact (hwindowFar Palette.default).trans (by decide)

end Report

end ScrewLang
