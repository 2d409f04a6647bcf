import Mathlib.Data.List.DropRight
import ScrewLang.Proofs.Source.Regions

/-!
# The code bytes of a text, by looking backwards

The scan carries a location and a mode from byte to byte. What it finds can be said of every byte by
itself, from the text before it: a byte is code if no terminator stands up to it, if it is neither a
comment mark nor a newline, and if no comment mark stands before it on its line. The scan finds just
these bytes, in order, each at its location. So does a reader that is asked for one code byte after
the other, and once it has none left it has none ever after.
-/

namespace ScrewLang

namespace Scan

variable {source : List UInt8} {offset : Nat} {b : UInt8}

/-- The bytes behind the last newline, or all of them if there is none. -/
def lastLine (source : List UInt8) : List UInt8 :=
  source.rtakeWhile (· != newline)

/-- The byte at an offset is code. -/
def IsCode (source : List UInt8) (offset : Nat) : Prop :=
  Unended source offset ∧ source[offset]? ≠ some commentMark ∧ source[offset]? ≠ some newline ∧
    commentMark ∉ lastLine (source.take offset)

instance (source : List UInt8) (offset : Nat) : Decidable (IsCode source offset) :=
  inferInstanceAs (Decidable (Unended source offset ∧ source[offset]? ≠ some commentMark ∧
    source[offset]? ≠ some newline ∧ commentMark ∉ lastLine (source.take offset)))

/-! ### The mode behind some bytes -/

theorem lastLine_concat (source : List UInt8) (b : UInt8) :
    lastLine (source ++ [b]) = if b = newline then [] else lastLine source ++ [b] := by
  rw [lastLine, List.rtakeWhile_concat]
  by_cases hb : b = newline <;> simp [hb, lastLine]

/-- The scan has come to the end when it has passed a terminator. -/
theorem foldl_next_eq_ended_iff (source : List UInt8) :
    source.foldl Mode.next .code = .ended ↔ terminator ∈ source := by
  have hended := modeAt_eq_ended_iff (Nat.le_refl source.length)
  rw [modeAt, List.take_length] at hended
  rw [hended, List.mem_iff_getElem?]
  constructor
  · rintro ⟨k, -, hk⟩
    exact ⟨k, hk⟩
  · rintro ⟨k, hk⟩
    exact ⟨k, (List.getElem?_eq_some_iff.mp hk).1, hk⟩

/-- The scan is in code mode when it has passed no terminator, and no comment mark since the last
newline. -/
theorem foldl_next_eq_code_iff (source : List UInt8) :
    source.foldl Mode.next .code = .code ↔
      terminator ∉ source ∧ commentMark ∉ lastLine source := by
  induction source using List.reverseRecOn with
  | nil => simp [lastLine]
  | append_singleton source b ih =>
    rw [List.foldl_append, List.foldl_cons, List.foldl_nil, Mode.next_eq_code_iff, ih, ne_eq,
      foldl_next_eq_ended_iff, lastLine_concat]
    by_cases hn : b = newline
    · have hm : newline ≠ commentMark := by decide
      have ht : newline ≠ terminator := by decide
      subst hn
      simp [hm, ht, Ne.symm ht]
    · simp only [hn, ↓reduceIte, false_or, List.mem_append, List.mem_singleton, not_or, eq_comm]
      tauto

/-- The scan is in a comment when it has passed no terminator, but a comment mark since the last
newline. -/
theorem foldl_next_eq_comment_iff (source : List UInt8) :
    source.foldl Mode.next .code = .comment ↔
      terminator ∉ source ∧ commentMark ∈ lastLine source := by
  have hended := foldl_next_eq_ended_iff source
  have hcode := foldl_next_eq_code_iff source
  cases hmode : source.foldl Mode.next .code with
  | ended => simp [← hended, hmode]
  | code => simp [hcode.mp hmode]
  | comment =>
    rw [hmode] at hended hcode
    simp only [reduceCtorEq, false_iff, not_and, not_not] at hended hcode
    simp [hended, hcode hended]

/-- The mode that a scan comes to. -/
theorem mode_onward (location : Location) (mode : Mode) (source : List UInt8) :
    (onward location mode source).mode = source.foldl Mode.next mode := by
  induction source generalizing location mode with
  | nil => rfl
  | cons b rest ih =>
    rw [onward, List.foldl_cons]
    split <;> exact ih _ _

/-- Behind the end the mode stays as it is. -/
theorem foldl_next_ended (source : List UInt8) : source.foldl Mode.next .ended = .ended := by
  induction source with
  | nil => rfl
  | cons b rest ih => simpa [Mode.next] using ih

/-! ### The bytes that are found -/

theorem unended_iff_not_mem_take :
    Unended source offset ↔ terminator ∉ source.take (offset + 1) := by
  simp only [Unended, List.mem_iff_getElem?, List.getElem?_take, not_exists]
  constructor
  · intro h k hk
    split at hk
    · next hl => exact h k (Nat.le_of_lt_succ hl) hk
    · cases hk
  · intro h k hk ht
    exact h k (by rw [if_pos (Nat.lt_succ_of_le hk), ht])

/-- The bytes that the scan takes for code, other than newlines, are code. -/
theorem isCode_iff (h : source[offset]? = some b) :
    IsCode source offset ↔ modeAt source (offset + 1) = .code ∧ b ≠ newline := by
  rw [IsCode, unended_iff_not_mem_take, modeAt_succ h, Mode.next_eq_code_iff, modeAt,
    foldl_next_eq_code_iff, ne_eq (List.foldl _ _ _), foldl_next_eq_ended_iff, List.take_add_one, h]
  simp only [Option.toList_some, List.mem_append, List.mem_singleton, Option.some.injEq, ne_eq]
  grind

/-- What the scan finds from an offset on. -/
theorem items_from (h : offset ≤ source.length) :
    (onward (.ofOffset source offset) (modeAt source offset) (source.drop offset)).items =
      ((List.range' offset (source.length - offset)).filter (IsCode source)).map fun k =>
        ⟨.ofOffset source k, source.getD k 0, .code⟩ := by
  -- the induction is on the number of bytes left
  induction hr : source.length - offset generalizing offset with
  | zero =>
    rw [List.drop_eq_nil_of_le (by omega)]
    rfl
  | succ left ih =>
    have hl : offset < source.length := by omega
    have hb := List.getElem?_eq_getElem hl
    have hrest := ih hl (by omega)
    rw [List.drop_eq_getElem_cons hl, onward, List.range'_succ, List.filter_cons]
    simp only [← modeAt_succ hb, ← Location.ofOffset_succ hb, ← isCode_iff hb, decide_eq_true_eq]
    split
    · next hc =>
      rw [List.map_cons, hrest, ((isCode_iff hb).mp hc).1, List.getD_eq_getElem?_getD, hb,
        Option.getD_some]
    · exact hrest

/-- What the scan finds in a text. -/
theorem items_ofSource (source : List UInt8) :
    (ofSource source).items = ((List.range source.length).filter (IsCode source)).map fun k =>
      ⟨.ofOffset source k, source.getD k 0, .code⟩ := by
  rw [List.range_eq_range']
  exact items_from (Nat.zero_le source.length)

/-! ### Asking for one code byte after the other -/

/-- A scan between two code bytes: the place and the mode that it has come to, and the bytes left.
-/
structure Reader where
  location : Location
  mode : Mode
  rest : List UInt8
deriving DecidableEq, Repr

namespace Reader

/-- A reader at the start of a text. -/
def ofSource (source : List UInt8) : Reader :=
  ⟨.start, .code, source⟩

/-- Read on from a place, up to the next code byte. -/
def seek : Location → Mode → List UInt8 → Option Item × Reader
  | location, mode, [] => (none, ⟨location, mode, []⟩)
  | location, mode, b :: rest =>
    if mode = .ended then (none, ⟨location, mode, b :: rest⟩)
    else if mode.next b = .code ∧ b ≠ newline then
      (some ⟨location, b, mode.next b⟩, ⟨location.advance b, mode.next b, rest⟩)
    else seek (location.advance b) (mode.next b) rest

/-- The next code byte, if there is one, and the reader behind it. -/
def next (reader : Reader) : Option Item × Reader :=
  seek reader.location reader.mode reader.rest

/-- The reader after it has been asked a number of times. -/
def after (reader : Reader) : (count : Nat) → Reader
  | 0 => reader
  | count + 1 => (reader.after count).next.2

/-- The scan of what a reader has left. -/
def scan (reader : Reader) : Scan :=
  onward reader.location reader.mode reader.rest

variable {location : Location} {mode : Mode} {source : List UInt8} {item : Item}
  {reader later : Reader}

/-- A code byte that is read is the first one left. -/
theorem scan_of_seek_some (h : seek location mode source = (some item, later)) :
    (onward location mode source).items = item :: later.scan.items ∧
      (onward location mode source).mode = later.scan.mode := by
  induction source generalizing location mode with
  | nil => cases h
  | cons b rest ih =>
    rw [seek] at h
    split at h
    · cases h
    · split at h
      · next hc =>
        cases h
        simp only [onward, hc, ne_eq, not_false_eq_true, and_self, ↓reduceIte]
        exact ⟨rfl, rfl⟩
      · next hc =>
        simp only [onward, hc, ↓reduceIte]
        exact ih h

/-- A reader without a code byte left has read to the end, and stays there. -/
theorem scan_of_seek_none (h : seek location mode source = (none, later)) :
    (onward location mode source).items = [] ∧ (onward location mode source).mode = later.mode ∧
      later.next = (none, later) := by
  induction source generalizing location mode with
  | nil =>
    cases h
    exact ⟨rfl, rfl, rfl⟩
  | cons b rest ih =>
    rw [seek] at h
    split at h
    · next hm =>
      cases h
      subst hm
      refine ⟨onward_ended location (b :: rest), ?_, by simp [next, seek]⟩
      rw [mode_onward, foldl_next_ended]
    · split at h
      · cases h
      · next hc =>
        simp only [onward, hc, ↓reduceIte]
        exact ih h

/-- One question gives the first code byte left, and leaves the others. -/
theorem next_spec (reader : Reader) :
    reader.next.1 = reader.scan.items.head? ∧ reader.next.2.scan.items = reader.scan.items.tail ∧
      reader.next.2.scan.mode = reader.scan.mode := by
  cases h : reader.next with
  | mk item later =>
  cases item with
  | some item =>
    obtain ⟨hitems, hmode⟩ := scan_of_seek_some h
    simp only [scan] at hitems hmode ⊢
    simp [hitems, hmode]
  | none =>
    obtain ⟨hitems, hmode, hlater⟩ := scan_of_seek_none h
    obtain ⟨hnone, hsame, -⟩ := scan_of_seek_none hlater
    simp only [scan] at hitems hmode ⊢
    simp [hitems, hnone, hmode, hsame]

/-- Each question takes one code byte away. -/
theorem items_after (reader : Reader) (count : Nat) :
    (reader.after count).scan.items = reader.scan.items.drop count ∧
      (reader.after count).scan.mode = reader.scan.mode := by
  induction count with
  | zero => exact ⟨rfl, rfl⟩
  | succ count ih =>
    obtain ⟨-, htail, hmode⟩ := (reader.after count).next_spec
    rw [after, htail, hmode, ih.1, ih.2, List.tail_drop]
    exact ⟨rfl, rfl⟩

/-- The answers of a reader are the code bytes that it has left, and then nothing any more. -/
theorem next_after (reader : Reader) (count : Nat) :
    (reader.after count).next.1 = reader.scan.items[count]? := by
  rw [(next_spec _).1, (items_after reader count).1, List.head?_drop]

/-- A reader that has been asked in vain has come to where the scan ends. -/
theorem mode_after {count : Nat} (h : reader.scan.items.length < count) :
    (reader.after count).mode = reader.scan.mode := by
  obtain ⟨before, rfl⟩ := Nat.exists_eq_succ_of_ne_zero (Nat.ne_zero_of_lt h)
  have hnone : (reader.after before).next.1 = none := by
    rw [next_after, List.getElem?_eq_none (by omega)]
  have hnext : (reader.after before).next = (none, reader.after (before + 1)) :=
    Prod.ext hnone rfl
  obtain ⟨-, hmode, -⟩ := scan_of_seek_none hnext
  exact hmode.symm.trans (items_after reader before).2

end Reader

end Scan

/-- The scan finds just the code bytes of a text. Their offsets are those before the first
terminator at which there is neither a comment mark nor a newline, and no comment mark before on the
same line; they come in order and once each, every byte with its location. A reader that is asked
for one after the other answers with them and then with nothing, however often it is asked, and is
left in the mode that the scan ends in. This is the end if the text has a terminator, and a comment
if it has none and its last line has a comment mark. -/
theorem scan_finds_code_bytes (source : List UInt8) :
    let scan := Scan.ofSource source
    let reader := Scan.Reader.ofSource source
    (scan.items.map (·.location.offset) =
        (List.range source.length).filter (Scan.IsCode source) ∧
      ∀ item ∈ scan.items, source[item.location.offset]? = some item.byte ∧
        item.location = .ofOffset source item.location.offset) ∧
    (∀ count, (reader.after count).next.1 = scan.items[count]?) ∧
    (∀ count, scan.items.length < count → (reader.after count).mode = scan.mode) ∧
    (scan.terminated = true ↔ Scan.terminator ∈ source) ∧
    (scan.inComment = true ↔
      Scan.terminator ∉ source ∧ Scan.commentMark ∈ Scan.lastLine source) := by
  intro scan reader
  have hitems : scan.items = _ := Scan.items_ofSource source
  have hmode : scan.mode = source.foldl Scan.Mode.next .code := Scan.mode_onward _ _ source
  refine ⟨⟨?_, ?_⟩, reader.next_after, fun _ => reader.mode_after, ?_, ?_⟩
  · rw [hitems, List.map_map]
    exact List.map_id' _
  · intro item hi
    rw [hitems] at hi
    obtain ⟨offset, ho, rfl⟩ := List.mem_map.mp hi
    have hl : offset < source.length := List.mem_range.mp (List.mem_of_mem_filter ho)
    refine ⟨?_, rfl⟩
    show source[offset]? = some (source.getD offset 0)
    rw [List.getD_eq_getElem?_getD, List.getElem?_eq_getElem hl, Option.getD_some]
  · rw [Scan.terminated, decide_eq_true_iff, hmode, Scan.foldl_next_eq_ended_iff]
  · rw [Scan.inComment, decide_eq_true_iff, hmode, Scan.foldl_next_eq_comment_iff]

/-- Two lines with a comment each, the first with a character of two bytes and the second without a
newline at its end. -/
theorem scan_finds_code_bytes_open_comment :
    let source : List UInt8 := [0xC3, 0xA9, 0x2B, 0x3B, 0x61, 0x0A, 0x2D, 0x3B]
    let scan := Scan.ofSource source
    let reader := Scan.Reader.ofSource source
    let item : Scan.Item := ⟨⟨⟨2, 1⟩, 6⟩, 0x2D, .code⟩
    scan.items.map (·.location.offset) = [0, 1, 2, 6] ∧
      (item ∈ scan.items ∧ source[6]? = some item.byte ∧ item.location = .ofOffset source 6) ∧
      (scan.items.length < 9 ∧ (reader.after 3).next.1 = some item ∧
        (reader.after 9).next.1 = none ∧ (reader.after 9).mode = .comment) ∧
      scan.inComment = true := by
  intro source scan reader item
  have hi : item ∈ scan.items := by decide
  have hl : scan.items.length < 9 := by decide
  obtain ⟨⟨hoffsets, hplaces⟩, hanswers, hmode, -, hcomment⟩ := scan_finds_code_bytes source
  obtain ⟨hbyte, hlocation⟩ := hplaces item hi
  exact ⟨hoffsets, ⟨hi, hbyte, hlocation⟩, ⟨hl, hanswers 3, hanswers 9, hmode 9 hl⟩,
    hcomment.mpr (by decide)⟩

end ScrewLang
