import ScrewLang.Proofs.Source.Braces

/-!
# Similar texts

What becomes of a text depends on a few of its bytes only: on a terminator, on the first NUL byte
before it, and on the code bytes that write symbols. Two texts that have these in common compile to
the same program or fail with the same kind of fault; and if these bytes stand at related places in
the two texts, then so does what the faults point at.
-/

namespace ScrewLang

/-! ### Places behind some bytes -/

namespace Location

variable {location : Location} {input : List UInt8} {source : List UInt8} {offset : Nat}

/-- The location behind some bytes. -/
def past (location : Location) (input : List UInt8) : Location :=
  input.foldl advance location

@[simp]
theorem past_nil (location : Location) : location.past [] = location := rfl

@[simp]
theorem past_cons (location : Location) (b : UInt8) (input : List UInt8) :
    location.past (b :: input) = (location.advance b).past input := rfl

theorem past_append (location : Location) (input more : List UInt8) :
    location.past (input ++ more) = (location.past input).past more :=
  List.foldl_append

@[simp]
theorem offset_past (location : Location) (input : List UInt8) :
    (location.past input).offset = location.offset + input.length := by
  induction input generalizing location with
  | nil => rfl
  | cons b input ih =>
    rw [past_cons, ih, List.length_cons]
    show location.offset + 1 + input.length = _
    omega

/-- A byte that is no newline stays on its line. -/
theorem line_advance {b : UInt8} (h : b ≠ newline) : (location.advance b).line = location.line := by
  show (location.toPosition.advance b).line = _
  rw [Position.advance, if_neg h]
  split <;> rfl

/-- Bytes without a newline stay on their line. -/
theorem line_past (h : newline ∉ input) : (location.past input).line = location.line := by
  induction input generalizing location with
  | nil => rfl
  | cons b input ih =>
    rw [List.mem_cons, not_or] at h
    rw [past_cons, ih h.2, line_advance (Ne.symm h.1)]

theorem toPosition_past (location : Location) (input : List UInt8) :
    (location.past input).toPosition = input.foldl Position.advance location.toPosition := by
  induction input generalizing location with
  | nil => rfl
  | cons b input ih => rw [past_cons, ih, List.foldl_cons]; rfl

/-- A location in a text is the one behind the bytes before it. -/
theorem ofOffset_eq_past (h : offset ≤ source.length) :
    ofOffset source offset = start.past (source.take offset) := by
  have hposition := toPosition_past start (source.take offset)
  have hoffset : (start.past (source.take offset)).offset = offset := by
    rw [offset_past, List.length_take_of_le h]
    exact Nat.zero_add offset
  calc ofOffset source offset
    _ = ⟨(start.past (source.take offset)).toPosition, offset⟩ := by rw [hposition]; rfl
    _ = start.past (source.take offset) :=
      congrArg (Location.mk (start.past (source.take offset)).toPosition) hoffset.symm

end Location

namespace Scan

variable {related : Location → Location → Prop} {items others more rest : List Item}

/-- A text is scanned part by part. -/
theorem items_append (location : Location) (mode : Mode) (source more : List UInt8) :
    (onward location mode (source ++ more)).items =
      (onward location mode source).items ++
        (onward (location.past source) (source.foldl Mode.next mode) more).items := by
  induction source generalizing location mode with
  | nil => rfl
  | cons b source ih =>
    rw [List.cons_append, onward, onward, Location.past_cons, List.foldl_cons]
    split
    · rw [List.cons_append, ih]
    · exact ih _ _

/-- Code bytes that write the same symbols, at related places. -/
inductive Corresponds (related : Location → Location → Prop) : List Item → List Item → Prop where
  | nil : Corresponds related [] []
  | left {item : Item} {items others : List Item} (h : Symbol.ofByte? item.byte = none)
      (rest : Corresponds related items others) : Corresponds related (item :: items) others
  | right {other : Item} {items others : List Item} (h : Symbol.ofByte? other.byte = none)
      (rest : Corresponds related items others) : Corresponds related items (other :: others)
  | both {item other : Item} {items others : List Item} (byte : item.byte = other.byte)
      (place : related item.location other.location) (rest : Corresponds related items others) :
      Corresponds related (item :: items) (other :: others)

namespace Corresponds

/-- The same code bytes at the same places. -/
theorem refl (h : ∀ item ∈ items, related item.location item.location) :
    Corresponds related items items := by
  induction items with
  | nil => exact .nil
  | cons item items ih =>
    have hrest := ih fun other ho => h other (List.mem_cons_of_mem item ho)
    exact .both rfl (h item List.mem_cons_self) hrest

theorem append (h : Corresponds related items others) (hm : Corresponds related more rest) :
    Corresponds related (items ++ more) (others ++ rest) := by
  induction h with
  | nil => exact hm
  | left hs _ ih => exact .left hs ih
  | right hs _ ih => exact .right hs ih
  | both hb hp _ ih => exact .both hb hp ih

theorem mono {wider : Location → Location → Prop} (h : Corresponds related items others)
    (hw : ∀ a b, related a b → wider a b) : Corresponds wider items others := by
  induction h with
  | nil => exact .nil
  | left hs _ ih => exact .left hs ih
  | right hs _ ih => exact .right hs ih
  | both hb hp _ ih => exact .both hb (hw _ _ hp) ih

/-- The same symbols are written. -/
theorem symbols (h : Corresponds related items others) :
    (items.filterMap fun item => Symbol.ofByte? item.byte) =
      others.filterMap fun item => Symbol.ofByte? item.byte := by
  induction h with
  | nil => rfl
  | left hs _ ih => simp only [List.filterMap_cons, hs, ih]
  | right hs _ ih => simp only [List.filterMap_cons, hs, ih]
  | both hb _ _ ih => simp only [List.filterMap_cons, hb, ih]

end Corresponds

end Scan

namespace Validation

variable {related : Location → Location → Prop} {source other : List UInt8}

/-! ### The first NUL byte -/

/-- Where the first NUL byte before a terminator stands, in the bytes that follow a place. -/
def firstNul : Location → List UInt8 → Option Location
  | _, [] => none
  | location, b :: rest =>
    if b = Scan.terminator then none
    else if b = 0 then some location
    else firstNul (location.advance b) rest

theorem firstNul_eq (location : Location) (source : List UInt8) :
    firstNul location source =
      ((source.takeWhile (· != Scan.terminator)).findIdx? (· == 0)).map fun offset =>
        location.past (source.take offset) := by
  induction source generalizing location with
  | nil => rfl
  | cons b rest ih =>
    rw [firstNul]
    by_cases ht : b = Scan.terminator
    · simp [ht]
    · rw [if_neg ht, List.takeWhile_cons_of_pos (by simpa using ht), List.findIdx?_cons]
      by_cases hz : b = 0
      · simp [hz]
      · simp only [hz, ↓reduceIte, beq_iff_eq, ih, Option.map_map]
        rfl

/-- A text passes the check of its terminator when it has one and no NUL byte stands before it. -/
theorem checkTerminator_eq (source : List UInt8) :
    checkTerminator source =
      if Scan.terminator ∈ source then
        match firstNul .start source with
        | some location => .error (.embeddedNul location)
        | none => .ok ()
      else .error .missingTerminator := by
  rw [checkTerminator, firstNul_eq]
  by_cases ht : Scan.terminator ∈ source
  · cases hn : (source.takeWhile (· != Scan.terminator)).findIdx? (· == 0) with
    | none => simp [hasTerminator, ht]
    | some offset =>
      have hlt := (List.findIdx?_eq_some_iff_getElem.mp hn).1
      have hle := (List.takeWhile_sublist (l := source) (· != Scan.terminator)).length_le
      simp [hasTerminator, ht, Location.ofOffset_eq_past (show offset ≤ source.length by omega)]
  · simp [hasTerminator, ht]

/-- The first NUL byte of two parts is the first of the earlier part, if it has one. -/
theorem firstNul_append {first : List UInt8} (h : Scan.terminator ∉ first) (location : Location)
    (second : List UInt8) :
    firstNul location (first ++ second) =
      (firstNul location first).or (firstNul (location.past first) second) := by
  induction first generalizing location with
  | nil => rfl
  | cons b rest ih =>
    rw [List.mem_cons, not_or] at h
    rw [List.cons_append, firstNul, firstNul, if_neg (Ne.symm h.1), if_neg (Ne.symm h.1),
      Location.past_cons]
    split
    · rfl
    · exact ih h.2 _

theorem firstNul_eq_none (h : 0 ∉ source) (location : Location) :
    firstNul location source = none := by
  induction source generalizing location with
  | nil => rfl
  | cons b rest ih =>
    rw [List.mem_cons, not_or] at h
    rw [firstNul, if_neg (Ne.symm h.1), ih h.2, ite_self]

/-- A NUL byte is found among the bytes searched. -/
theorem offset_of_firstNul {location found : Location} (h : firstNul location source = some found) :
    ∃ k < source.length, found.offset = location.offset + k := by
  induction source generalizing location with
  | nil => cases h
  | cons b rest ih =>
    rw [firstNul] at h
    split at h
    · cases h
    · split at h
      · cases h
        exact ⟨0, Nat.succ_pos _, rfl⟩
      · obtain ⟨k, hk, ho⟩ := ih h
        have ha : (location.advance b).offset = location.offset + 1 := rfl
        exact ⟨k + 1, Nat.succ_lt_succ hk, by omega⟩

/-! ### Verdicts that agree -/

/-- Two faults of the same kind, at related places. -/
inductive Fault.Moved (related : Location → Location → Prop) : Fault → Fault → Prop where
  | missingTerminator : Moved related .missingTerminator .missingTerminator
  | embeddedNul {location other : Location} (place : related location other) :
      Moved related (.embeddedNul location) (.embeddedNul other)
  | unbalancedBraces {location other : Location} (brace : Brace) (place : related location other) :
      Moved related (.unbalancedBraces brace location) (.unbalancedBraces brace other)

/-- Two verdicts agree: both accept with the same result, or both report a fault of the same kind at
related places. -/
inductive Agree {α : Type} (related : Location → Location → Prop) :
    Except Fault α → Except Fault α → Prop where
  | ok (value : α) : Agree related (.ok value) (.ok value)
  | error {fault other : Fault} (moved : fault.Moved related other) :
      Agree related (.error fault) (.error other)

/-- Verdicts that agree at the same places are the same. -/
theorem Agree.eq {α : Type} {first second : Except Fault α} (h : Agree Eq first second) :
    first = second := by
  cases h with
  | ok value => rfl
  | error moved =>
    cases moved with
    | missingTerminator => rfl
    | embeddedNul place => rw [place]
    | unbalancedBraces brace place => rw [place]

/-- What follows on verdicts that agree agrees. -/
theorem Agree.bind {α β : Type} {first second : Except Fault α} {next later : α → Except Fault β}
    (h : Agree related first second) (hn : ∀ value, Agree related (next value) (later value)) :
    Agree related (first >>= next) (second >>= later) := by
  cases h with
  | ok value => exact hn value
  | error moved => exact .error moved

/-- Corresponding code bytes have corresponding braces without partner. -/
theorem agree_balance {items others : List Scan.Item}
    (h : Scan.Corresponds related items others) {opened : List (Location × Location)}
    (ho : ∀ pair ∈ opened, related pair.1 pair.2) :
    Agree related (balance (opened.map Prod.fst) items) (balance (opened.map Prod.snd) others) := by
  induction h generalizing opened with
  | nil =>
    cases opened with
    | nil => exact .ok ()
    | cons first outer => exact .error (.unbalancedBraces .opening (ho first List.mem_cons_self))
  | left hs _ ih =>
    rw [balance_cons, Brace.ofByte?_eq, hs]
    exact ih ho
  | right hs _ ih =>
    rw [balance_cons (opened.map Prod.snd), Brace.ofByte?_eq, hs]
    exact ih ho
  | @both item other _ _ hb hp _ ih =>
    rw [balance_cons, balance_cons (opened.map Prod.snd), hb]
    cases Brace.ofByte? other.byte with
    | none => exact ih ho
    | some side =>
      cases side with
      | opening =>
        have hin : ∀ pair ∈ (item.location, other.location) :: opened, related pair.1 pair.2 := by
          intro pair hm
          rcases List.mem_cons.mp hm with rfl | hm
          · exact hp
          · exact ho pair hm
        exact ih hin
      | closing =>
        cases opened with
        | nil => exact .error (.unbalancedBraces .closing hp)
        | cons first outer => exact ih fun pair hm => ho pair (List.mem_cons_of_mem first hm)

/-- What two texts have in common that compile alike. -/
structure Similar (related : Location → Location → Prop) (source other : List UInt8) : Prop where
  terminator : Scan.terminator ∈ source ↔ Scan.terminator ∈ other
  nul : Option.Rel related (firstNul .start source) (firstNul .start other)
  code : Scan.Corresponds related (Scan.ofSource source).items (Scan.ofSource other).items

namespace Similar

theorem checkTerminator (h : Similar related source other) :
    Agree related (checkTerminator source) (checkTerminator other) := by
  rw [checkTerminator_eq, checkTerminator_eq]
  by_cases ht : Scan.terminator ∈ source
  · rw [if_pos ht, if_pos (h.terminator.mp ht)]
    have hn := h.nul
    generalize firstNul .start source = first at hn ⊢
    generalize firstNul .start other = second at hn ⊢
    cases hn with
    | none => exact .ok ()
    | some place => exact .error (.embeddedNul place)
  · rw [if_neg ht, if_neg fun ho => ht (h.terminator.mpr ho)]
    exact .error .missingTerminator

theorem checkBraces (h : Similar related source other) :
    Agree related (checkBraces source) (checkBraces other) := by
  have ho : ∀ pair ∈ ([] : List (Location × Location)), related pair.1 pair.2 := by simp
  exact agree_balance h.code ho

theorem validate (h : Similar related source other) :
    Agree related (validate source) (validate other) :=
  h.checkTerminator.bind fun _ => h.checkBraces

/-- Similar texts write the same program. -/
theorem ofSource (h : Similar related source other) :
    Program.ofSource source = Program.ofSource other := by
  rw [Program.ofSource, h.code.symbols, Program.ofSource]

/-- Similar texts compile to the same program, or fail alike. -/
theorem compile (h : Similar related source other) :
    Agree related (Program.compile source) (Program.compile other) := by
  refine h.validate.bind fun _ => ?_
  rw [h.ofSource]
  exact .ok _

end Similar

end Validation

end ScrewLang
