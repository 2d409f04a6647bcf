import ScrewLang.Proofs.Source.Similar
import ScrewLang.Proofs.Source.Regions

/-!
# Comments and what follows the terminator

Nothing that stands in a comment or behind the terminator matters to compilation. Behind the
terminator the text can be replaced by any other. The body of a comment can be replaced by any other
body: the program is the same, and so is a fault, with its line and column; only the offset of what
stands behind the comment moves by as many bytes as the body grows.
-/

namespace ScrewLang

namespace Scan

variable {location first second : Location} {mode : Mode} {body : List UInt8}

/-! ### The scan of a comment -/

/-- A comment with the marks around it. -/
def comment (body : List UInt8) : List UInt8 :=
  commentMark :: (body ++ [newline])

/-- What can stand in a comment: nothing that closes it, ends the text or is forbidden. -/
structure CommentBody (body : List UInt8) : Prop where
  newline : newline ∉ body
  terminator : terminator ∉ body
  nul : 0 ∉ body

theorem terminator_not_mem_comment (h : CommentBody body) : terminator ∉ comment body := by
  have hm : terminator ≠ commentMark := by decide
  have hn : terminator ≠ newline := by decide
  simp [comment, h.terminator, hm, hn]

/-- Bytes without a terminator do not end the text. -/
theorem foldl_next_ne_ended {input : List UInt8} (hm : mode ≠ .ended) (h : terminator ∉ input) :
    input.foldl Mode.next mode ≠ .ended := by
  induction input generalizing mode with
  | nil => exact hm
  | cons b input ih =>
    rw [List.mem_cons, not_or] at h
    apply ih _ h.2
    rw [ne_eq, Mode.next_eq_ended_iff, not_or]
    exact ⟨hm, Ne.symm h.1⟩

/-- A newline leads back to code. -/
theorem next_newline (hm : mode ≠ .ended) : mode.next newline = .code := by
  rw [Mode.next_eq_code_iff]
  exact ⟨⟨hm, by decide⟩, by decide, .inl rfl⟩

theorem foldl_next_comment (hm : mode ≠ .ended) (h : CommentBody body) :
    (comment body).foldl Mode.next mode = .code := by
  have ht : terminator ∉ commentMark :: body := by
    have hne : terminator ≠ commentMark := by decide
    simp [h.terminator, hne]
  rw [comment, ← List.cons_append, List.foldl_append]
  exact next_newline (foldl_next_ne_ended hm ht)

/-- In a comment nothing is code. -/
theorem items_body (h : CommentBody body) : (onward location .comment body).items = [] := by
  obtain ⟨hn, ht, -⟩ := h
  induction body generalizing location with
  | nil => rfl
  | cons b body ih =>
    rw [List.mem_cons, not_or] at hn ht
    have hnext : Mode.comment.next b = .comment := by
      simp [Mode.next, Ne.symm hn.1, Ne.symm ht.1]
    rw [onward, hnext]
    exact ih hn.2 ht.2

theorem items_comment (hm : mode ≠ .ended) (h : CommentBody body) :
    (onward location mode (comment body)).items = [] := by
  have hnext : mode.next commentMark = .comment := by
    have hne : commentMark ≠ terminator := by decide
    simp [Mode.next, hm, hne]
  have hmark : (onward location mode (comment body)).items =
      (onward (location.advance commentMark) .comment (body ++ [newline])).items := by
    rw [comment, onward, hnext]
    rfl
  rw [hmark, items_append, items_body h, List.nil_append, onward, onward]
  simp

/-- Behind a comment a new line begins. -/
theorem toPosition_past_comment (h : CommentBody body) :
    (location.past (comment body)).toPosition = ⟨location.line + 1, 1⟩ := by
  have hn : newline ∉ commentMark :: body := by
    have hne : newline ≠ commentMark := by decide
    simp [h.newline, hne]
  rw [comment, ← List.cons_append, Location.past_append]
  show Position.advance (location.past (commentMark :: body)).toPosition newline = _
  rw [Position.advance, if_pos rfl, Location.line_past hn]

/-! ### The same text behind two places -/

/-- Two places in the same position, equally far behind two others. -/
structure Parallel (first second : Location) (length : Nat) (a b : Location) : Prop where
  position : a.toPosition = b.toPosition
  offset : ∃ k < length, a.offset = first.offset + k ∧ b.offset = second.offset + k

theorem Parallel.self (h : first.toPosition = second.toPosition) (length : Nat) :
    Parallel first second (length + 1) first second :=
  ⟨h, 0, Nat.succ_pos length, rfl, rfl⟩

theorem Parallel.of_advance {x : UInt8} {length : Nat} {a b : Location}
    (h : Parallel (first.advance x) (second.advance x) length a b) :
    Parallel first second (length + 1) a b := by
  obtain ⟨k, hk, ha, hb⟩ := h.offset
  have hf : (first.advance x).offset = first.offset + 1 := rfl
  have hs : (second.advance x).offset = second.offset + 1 := rfl
  exact ⟨h.position, k + 1, Nat.succ_lt_succ hk, by omega, by omega⟩

theorem toPosition_advance (h : first.toPosition = second.toPosition) (x : UInt8) :
    (first.advance x).toPosition = (second.advance x).toPosition := by
  show first.toPosition.advance x = second.toPosition.advance x
  rw [h]

/-- A text has the same code bytes behind two places in the same position. -/
theorem corresponds_parallel (h : first.toPosition = second.toPosition) (mode : Mode)
    (source : List UInt8) :
    Corresponds (Parallel first second source.length) (onward first mode source).items
      (onward second mode source).items := by
  induction source generalizing first second mode with
  | nil => exact .nil
  | cons b rest ih =>
    have hrest := (ih (toPosition_advance h b) (mode.next b)).mono fun _ _ hp => hp.of_advance
    simp only [onward]
    split
    · exact .both rfl (Parallel.self h _) hrest
    · exact hrest

private theorem rel_mono {narrow wide : Location → Location → Prop} {a b : Option Location}
    (h : Option.Rel narrow a b) (hw : ∀ x y, narrow x y → wide x y) : Option.Rel wide a b := by
  cases h with
  | none => exact .none
  | some place => exact .some (hw _ _ place)

/-- A text has the same first NUL byte behind two places in the same position. -/
theorem firstNul_parallel (h : first.toPosition = second.toPosition) (source : List UInt8) :
    Option.Rel (Parallel first second source.length) (Validation.firstNul first source)
      (Validation.firstNul second source) := by
  induction source generalizing first second with
  | nil => exact .none
  | cons b rest ih =>
    rw [Validation.firstNul, Validation.firstNul]
    split
    · exact .none
    · split
      · exact .some (Parallel.self h _)
      · exact rel_mono (ih (toPosition_advance h b)) fun _ _ hp => hp.of_advance

/-- Places in two texts that differ in the body of a comment: the same place before the comment, or
places in the same position, equally far behind it. -/
structure Across (p c d q : List UInt8) (a b : Location) : Prop where
  position : a.toPosition = b.toPosition
  offset : a.offset < p.length ∧ b.offset = a.offset ∨
    ∃ k < q.length, a.offset = (p ++ comment c).length + k ∧ b.offset = (p ++ comment d).length + k

end Scan

namespace Validation

open Scan (comment CommentBody Across Parallel)

variable {p c d : List UInt8}

/-- Texts that differ behind the terminator are similar. -/
theorem similar_behind_terminator (hp : Scan.terminator ∉ p) (x y : List UInt8) :
    Similar Eq (p ++ Scan.terminator :: x) (p ++ Scan.terminator :: y) where
  terminator := by simp
  nul := by
    have hnul (rest : List UInt8) :
        firstNul .start (p ++ Scan.terminator :: rest) = firstNul .start p := by
      rw [firstNul_append hp, firstNul, if_pos rfl, Option.or_none]
    rw [hnul, hnul]
    cases firstNul .start p with
    | none => exact .none
    | some location => exact .some rfl
  code := by
    have hitems (rest : List UInt8) : (Scan.ofSource (p ++ Scan.terminator :: rest)).items =
        (Scan.ofSource p).items := by
      have hnext (mode : Scan.Mode) : mode.next Scan.terminator = .ended := by
        rw [Scan.Mode.next_eq_ended_iff]
        exact .inr rfl
      rw [Scan.ofSource, Scan.items_append, Scan.onward, hnext]
      simp [Scan.onward_ended, Scan.ofSource]
    rw [hitems, hitems]
    exact .refl fun _ _ => rfl

/-- The code bytes around a comment. -/
theorem items_around_comment (hp : Scan.terminator ∉ p) (hc : CommentBody c) (q : List UInt8) :
    (Scan.ofSource (p ++ comment c ++ q)).items =
      (Scan.ofSource p).items ++
        (Scan.onward (Location.start.past (p ++ comment c)) .code q).items := by
  have hm : p.foldl Scan.Mode.next .code ≠ .ended := Scan.foldl_next_ne_ended (by simp) hp
  rw [Scan.ofSource, Scan.items_append, Scan.items_append, Scan.items_comment hm hc,
    List.append_nil, List.foldl_append, Scan.foldl_next_comment hm hc]
  rfl

/-- The first NUL byte around a comment. -/
theorem firstNul_around_comment (hp : Scan.terminator ∉ p) (hc : CommentBody c) (q : List UInt8) :
    firstNul .start (p ++ comment c ++ q) =
      (firstNul .start p).or (firstNul (Location.start.past (p ++ comment c)) q) := by
  have hnul : 0 ∉ comment c := by
    have hm : 0 ≠ Scan.commentMark := by decide
    have hn : 0 ≠ newline := by decide
    simp [comment, hc.nul, hm, hn]
  rw [firstNul_append, firstNul_append hp, firstNul_eq_none hnul, Option.or_none]
  simp [hp, Scan.terminator_not_mem_comment hc]

/-- Texts that differ in the body of a comment are similar. -/
theorem similar_around_comment (hp : Scan.terminator ∉ p) (hc : CommentBody c) (hd : CommentBody d)
    (q : List UInt8) : Similar (Across p c d q) (p ++ comment c ++ q) (p ++ comment d ++ q) := by
  have hposition : (Location.start.past (p ++ comment c)).toPosition =
      (Location.start.past (p ++ comment d)).toPosition := by
    rw [Location.past_append, Location.past_append, Scan.toPosition_past_comment hc,
      Scan.toPosition_past_comment hd]
  have hbehind {a b : Location} (h : Parallel (Location.start.past (p ++ comment c))
      (Location.start.past (p ++ comment d)) q.length a b) : Across p c d q a b := by
    obtain ⟨k, hk, ha, hb⟩ := h.offset
    rw [Location.offset_past, show Location.start.offset = 0 from rfl, Nat.zero_add] at ha hb
    exact ⟨h.position, .inr ⟨k, hk, ha, hb⟩⟩
  refine ⟨?_, ?_, ?_⟩
  · simp [hp, Scan.terminator_not_mem_comment hc, Scan.terminator_not_mem_comment hd]
  · rw [firstNul_around_comment hp hc, firstNul_around_comment hp hd]
    cases hn : firstNul .start p with
    | none => exact Scan.rel_mono (Scan.firstNul_parallel hposition q) fun _ _ h => hbehind h
    | some location =>
      obtain ⟨k, hk, ho⟩ := offset_of_firstNul hn
      rw [show Location.start.offset = 0 from rfl, Nat.zero_add] at ho
      exact .some ⟨rfl, .inl ⟨by omega, rfl⟩⟩
  · rw [items_around_comment hp hc, items_around_comment hp hd]
    refine .append (.refl fun item hm => ?_)
      ((Scan.corresponds_parallel hposition .code q).mono fun _ _ h => hbehind h)
    obtain ⟨k, ho, hk⟩ := Scan.exists_offset_of_mem_onward hm
    rw [show Location.start.offset = 0 from rfl, Nat.zero_add] at ho
    have hlt := (List.getElem?_eq_some_iff.mp hk).1
    exact ⟨rfl, .inl ⟨by omega, rfl⟩⟩

end Validation

/-- What stands behind the terminator or in a comment does not matter to compilation. Texts that
differ only behind their terminator compile to the same, faults and their places included. Texts
that differ only in the body of a comment compile to the same program, or fail with the same kind of
fault on the same line and column: at the same offset if that is before the comment, and else
equally far behind it. -/
theorem comments_and_rest_are_inert {p : List UInt8} (hp : Scan.terminator ∉ p) :
    (∀ x y, Program.compile (p ++ Scan.terminator :: x) =
      Program.compile (p ++ Scan.terminator :: y)) ∧
    ∀ c d q, Scan.CommentBody c → Scan.CommentBody d →
      Validation.Agree (Scan.Across p c d q) (Program.compile (p ++ Scan.comment c ++ q))
        (Program.compile (p ++ Scan.comment d ++ q)) := by
  constructor
  · intro x y
    exact (Validation.similar_behind_terminator hp x y).compile.eq
  · intro c d q hc hd
    exact (Validation.similar_around_comment hp hc hd q).compile

/-- A NUL byte behind a comment is found on the second line whatever the comment says, at an offset
that moves with its length; and a brace before it stays where it is. -/
theorem comments_and_rest_are_inert_two_bodies :
    let p : List UInt8 := [0x2B]
    let brace : List UInt8 := [0x7D]
    let c : List UInt8 := [0x7B, 0x3B, 0x2D]
    let d : List UInt8 := []
    let q : List UInt8 := [0x2E, 0x00, 0x7E]
    (Scan.terminator ∉ p ∧ Scan.terminator ∉ brace ∧ Scan.CommentBody c ∧ Scan.CommentBody d) ∧
      Program.compile (brace ++ Scan.terminator :: [0x7D]) =
        Program.compile (brace ++ Scan.terminator :: []) ∧
      Program.compile (p ++ Scan.comment c ++ q) = .error (.embeddedNul ⟨⟨2, 2⟩, 7⟩) ∧
      Program.compile (p ++ Scan.comment d ++ q) = .error (.embeddedNul ⟨⟨2, 2⟩, 4⟩) ∧
      Scan.Across p c d q ⟨⟨2, 2⟩, 7⟩ ⟨⟨2, 2⟩, 4⟩ := by
  intro p brace c d q
  have hp : Scan.terminator ∉ p := by decide
  have hbrace : Scan.terminator ∉ brace := by decide
  have hc : Scan.CommentBody c := ⟨by decide, by decide, by decide⟩
  have hd : Scan.CommentBody d := ⟨by decide, by decide, by decide⟩
  have hfirst : Program.compile (p ++ Scan.comment c ++ q) = .error (.embeddedNul ⟨⟨2, 2⟩, 7⟩) :=
    rfl
  have hsecond : Program.compile (p ++ Scan.comment d ++ q) = .error (.embeddedNul ⟨⟨2, 2⟩, 4⟩) :=
    rfl
  obtain ⟨-, hbodies⟩ := comments_and_rest_are_inert hp
  obtain ⟨hrest, -⟩ := comments_and_rest_are_inert hbrace
  refine ⟨⟨hp, hbrace, hc, hd⟩, hrest _ _, hfirst, hsecond, ?_⟩
  have hagree := hbodies c d q hc hd
  rw [hfirst, hsecond] at hagree
  cases hagree with
  | error moved =>
    cases moved with
    | embeddedNul place => exact place

end ScrewLang
