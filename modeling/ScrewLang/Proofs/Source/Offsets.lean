import Mathlib.Data.List.DropRight
import Mathlib.Data.Prod.Lex
import Mathlib.Order.Monotone.Basic
import ScrewLang.Proofs.Source.Positions

/-!
# From offsets to positions

An offset counts bytes, a position counts lines and characters. Between two characters a position
tells the characters before it; within a character it is the one behind the character, and past the
end of a text it is that of its end. Positions are read line by line: with the offset they never
fall back, and between two characters no two of them agree.
-/

namespace ScrewLang

namespace Position

/-- Where a position comes in the order of reading: lines first, then columns. -/
def rank (p : Position) : ℕ ×ₗ ℕ :=
  toLex (p.line, p.column)

/-- No byte leads back. -/
theorem rank_le_advance (p : Position) (b : UInt8) : p.rank ≤ (p.advance b).rank := by
  rw [rank, rank, Prod.Lex.toLex_le_toLex, advance]
  split
  · exact .inl (Nat.lt_succ_self p.line)
  · split
    · exact .inr ⟨rfl, Nat.le_refl p.column⟩
    · exact .inr ⟨rfl, Nat.le_succ p.column⟩

/-- Every character leads on. -/
theorem rank_lt_step (p : Position) (c : Char) : p.rank < (p.step c).rank := by
  rw [rank, rank, Prod.Lex.toLex_lt_toLex, step]
  split
  · exact .inl (Nat.lt_succ_self p.line)
  · exact .inr ⟨rfl, Nat.lt_succ_self p.column⟩

/-- Characters lead on, if there are any. -/
theorem rank_lt_foldl_step (p : Position) {text : List Char} (h : text ≠ []) :
    p.rank < (text.foldl step p).rank := by
  induction text generalizing p with
  | nil => exact absurd rfl h
  | cons c text ih =>
    rw [List.foldl_cons]
    by_cases ht : text = []
    · rw [ht]
      exact p.rank_lt_step c
    · exact lt_trans (p.rank_lt_step c) (ih (p.step c) ht)

/-- Of two texts that begin alike, the longer one leads further. -/
theorem eq_of_foldl_step_eq {p : Position} {text longer : List Char} (h : text <+: longer)
    (he : text.foldl step p = longer.foldl step p) : text = longer := by
  obtain ⟨more, rfl⟩ := h
  rw [List.foldl_append] at he
  by_cases hm : more = []
  · rw [hm, List.append_nil]
  · exact absurd (congrArg rank he) (ne_of_lt (rank_lt_foldl_step _ hm))

/-- The position behind a text tells its newlines, and its characters behind the last of them. -/
theorem foldl_step_start (text : List Char) :
    text.foldl step start =
      ⟨1 + text.count '\n', 1 + (text.rtakeWhile (· != '\n')).length⟩ := by
  induction text using List.reverseRecOn with
  | nil => rfl
  | append_singleton text c ih =>
    rw [List.foldl_append, ih, List.foldl_cons, List.foldl_nil, step, List.rtakeWhile_concat,
      List.count_append]
    by_cases hc : c = '\n'
    · simp [hc, Nat.add_assoc]
    · simp [hc, Nat.add_assoc]

end Position

namespace Location

/-- Between two characters the position is that behind the characters before. -/
theorem toPosition_ofOffset_append (front back : List Char) :
    (ofOffset ((front ++ back).flatMap String.utf8EncodeChar)
        (front.flatMap String.utf8EncodeChar).length).toPosition =
      front.foldl Position.step .start := by
  show (((front ++ back).flatMap String.utf8EncodeChar).take _).foldl Position.advance _ = _
  rw [List.flatMap_append, List.take_left, Position.foldl_advance_bytes]

/-- Within a character the position is already the one behind it. -/
theorem toPosition_ofOffset_inside (front back : List Char) {c : Char} {k : Nat} (hp : 0 < k)
    (hk : k ≤ c.utf8Size) :
    (ofOffset ((front ++ c :: back).flatMap String.utf8EncodeChar)
        ((front.flatMap String.utf8EncodeChar).length + k)).toPosition =
      (front ++ [c]).foldl Position.step .start := by
  show (((front ++ c :: back).flatMap String.utf8EncodeChar).take _).foldl Position.advance _ = _
  rw [List.flatMap_append, List.take_length_add_append, List.flatMap_cons,
    List.take_append_of_le_length (by rwa [String.length_utf8EncodeChar]), List.foldl_append,
    Position.foldl_advance_bytes, Position.foldl_advance_take_encode _ c hp, List.foldl_append]
  rfl

/-- Positions never fall back. -/
theorem monotone_rank (source : List UInt8) :
    Monotone fun offset => (ofOffset source offset).rank := by
  apply monotone_nat_of_le_succ
  intro offset
  show ((source.take offset).foldl Position.advance _).rank ≤
    ((source.take (offset + 1)).foldl Position.advance _).rank
  rw [List.take_add_one, List.foldl_append]
  cases source[offset]? with
  | none => exact le_refl _
  | some b => exact Position.rank_le_advance _ b

/-- Past the end of a text there is no other position than that of its end. -/
theorem toPosition_ofOffset_past {source : List UInt8} {offset : Nat}
    (h : source.length ≤ offset) :
    (ofOffset source offset).toPosition = (ofOffset source source.length).toPosition := by
  show (source.take offset).foldl Position.advance _ =
    (source.take source.length).foldl Position.advance _
  rw [List.take_of_length_le h, List.take_length]

/-- The offsets between two characters of a text, its start and its end among them. -/
def boundaries (source : String) : Set ℕ :=
  {offset | ∃ front back : String, source = front ++ back ∧ (Text.bytes front).length = offset}

/-- The position of a boundary is that behind the characters before it. -/
theorem toPosition_ofOffset_boundary (front back : String) :
    (ofOffset (Text.bytes (front ++ back)) (Text.bytes front).length).toPosition =
      front.toList.foldl Position.step .start := by
  rw [Text.bytes, Text.bytes, String.toList_append, toPosition_ofOffset_append]

/-- No two boundaries have the same position. -/
theorem injOn_boundaries (source : String) :
    Set.InjOn (fun offset => (ofOffset (Text.bytes source) offset).toPosition)
      (boundaries source) := by
  rintro _ ⟨front, back, hsource, rfl⟩ _ ⟨other, rest, hother, rfl⟩ he
  have hfirst := toPosition_ofOffset_boundary front back
  have hsecond := toPosition_ofOffset_boundary other rest
  rw [← hsource] at hfirst
  rw [← hother] at hsecond
  have hfolds : front.toList.foldl Position.step .start =
      other.toList.foldl Position.step .start := hfirst.symm.trans (he.trans hsecond)
  have hfront : front.toList <+: source.toList :=
    ⟨back.toList, by rw [hsource, String.toList_append]⟩
  have hbegin : other.toList <+: source.toList :=
    ⟨rest.toList, by rw [hother, String.toList_append]⟩
  have hlists : front.toList = other.toList := by
    rcases List.prefix_or_prefix_of_prefix hfront hbegin with hp | hp
    · exact Position.eq_of_foldl_step_eq hp hfolds
    · exact (Position.eq_of_foldl_step_eq hp hfolds.symm).symm
  rw [Text.bytes, hlists, Text.bytes]

end Location

/-- Offsets of bytes become positions of characters. Between what stands before it and what follows,
an offset has the line and the column that the newlines before it, and the characters behind the
last of them, give by count. Within a character it has the position behind the character, and past
the end of the text that of the end; the offset itself is kept in every case. So positions never
fall back where offsets grow, and between characters different offsets have different positions. -/
theorem offsets_become_positions (source : String) :
    (∀ front back : String, source = front ++ back →
      Location.ofOffset (Text.bytes source) (Text.bytes front).length =
        ⟨⟨1 + front.toList.count '\n', 1 + (front.toList.rtakeWhile (· != '\n')).length⟩,
          (Text.bytes front).length⟩) ∧
    (∀ (front back : String) (c : Char) (k : Nat), source = front.push c ++ back → 0 < k →
      k < c.utf8Size →
      (Location.ofOffset (Text.bytes source) ((Text.bytes front).length + k)).toPosition =
        (Location.ofOffset (Text.bytes source) (Text.bytes (front.push c)).length).toPosition) ∧
    (∀ offset, (Text.bytes source).length ≤ offset →
      (Location.ofOffset (Text.bytes source) offset).toPosition =
        (Location.ofOffset (Text.bytes source) (Text.bytes source).length).toPosition) ∧
    (∀ offset, (Location.ofOffset (Text.bytes source) offset).offset = offset) ∧
    Monotone (fun offset => (Location.ofOffset (Text.bytes source) offset).rank) ∧
    Set.InjOn (fun offset => (Location.ofOffset (Text.bytes source) offset).toPosition)
      (Location.boundaries source) := by
  refine ⟨?_, ?_, fun _ => Location.toPosition_ofOffset_past, fun _ => rfl,
    Location.monotone_rank _, Location.injOn_boundaries source⟩
  · rintro front back rfl
    have hposition := Location.toPosition_ofOffset_boundary front back
    rw [Position.foldl_step_start] at hposition
    exact congrArg (Location.mk · (Text.bytes front).length) hposition
  · rintro front back c k rfl hp hk
    have htext : (front.push c ++ back).toList = front.toList ++ c :: back.toList := by simp
    have hinside :=
      Location.toPosition_ofOffset_inside front.toList back.toList hp (Nat.le_of_lt hk)
    rw [← htext, ← String.toList_push] at hinside
    exact hinside.trans (Location.toPosition_ofOffset_boundary (front.push c) back).symm

/-- Two lines, with a character of two bytes on either. Offset 3 is where the second line begins, 5
lies within its second character, and 6 is the end of the text. -/
theorem offsets_become_positions_two_lines :
    let source := "é\naé"
    let locate := Location.ofOffset (Text.bytes source)
    (source = "é\n" ++ "aé" ∧ locate 3 = ⟨⟨2, 1⟩, 3⟩) ∧
      (source = "é\na".push 'é' ++ "" ∧ 1 < 'é'.utf8Size ∧
        (locate (4 + 1)).toPosition = (locate 6).toPosition) ∧
      ((Text.bytes source).length ≤ 9 ∧ (locate 9).toPosition = (locate 6).toPosition ∧
        (locate 9).offset = 9) ∧
      (locate 4).rank ≤ (locate 5).rank ∧
      (3 ∈ Location.boundaries source ∧ 4 ∈ Location.boundaries source ∧
        (locate 3).toPosition ≠ (locate 4).toPosition) := by
  intro source locate
  have hline : 3 ∈ Location.boundaries source := ⟨"é\n", "aé", rfl, rfl⟩
  have hlast : 4 ∈ Location.boundaries source := ⟨"é\na", "é", rfl, rfl⟩
  obtain ⟨hbetween, hinside, hpast, hoffset, hmono, hinj⟩ := offsets_become_positions source
  refine ⟨⟨rfl, hbetween "é\n" "aé" rfl⟩, ⟨rfl, by decide, ?_⟩,
    ⟨by decide, ?_, hoffset 9⟩, hmono (by decide), hline, hlast, fun he => ?_⟩
  · exact hinside "é\na" "" 'é' 1 rfl (by decide) (by decide)
  · have hend : (Text.bytes source).length = 6 := by decide
    rw [hpast 9 (by decide), hend]
  · exact absurd (hinj hline hlast he) (by decide)

end ScrewLang
