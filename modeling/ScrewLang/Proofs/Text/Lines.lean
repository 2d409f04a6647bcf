import Mathlib.Data.List.GetD
import Mathlib.Data.List.Induction
import ScrewLang.Text.Lines

/-!
# One line of a text

A line is told apart from the text around it by the newlines at its two ends. The lines of a text are
numbered by the newlines before them, and a line is shown without the carriage return that belongs to
its end.
-/

namespace ScrewLang.Text

/-! ### Pieces -/

section Pieces

variable {α : Type} {isEnd : α → Bool}

/-- An element that is no end begins the first piece. -/
theorem headD_pieces_cons {a : α} (h : isEnd a = false) (rest : List α) :
    (pieces isEnd (a :: rest)).headD [] = a :: (pieces isEnd rest).headD [] := by
  rw [pieces, h]
  cases pieces isEnd rest <;> rfl

/-- The first piece goes up to the first end, which belongs to it. -/
theorem headD_pieces_append {first : List α} (hf : ∀ a ∈ first, isEnd a = false) {rest : List α}
    (hr : ∀ a ∈ rest.head?, isEnd a = true) :
    (pieces isEnd (first ++ rest)).headD [] = first ++ rest.take 1 := by
  induction first with
  | nil =>
    cases rest with
    | nil => rfl
    | cons a rest =>
      have ha : isEnd a = true := hr a rfl
      simp [pieces, ha]
  | cons a first ih =>
    rw [List.forall_mem_cons] at hf
    rw [List.cons_append, headD_pieces_cons hf.1, ih hf.2, List.cons_append]

/-- Behind an end a new piece begins, and the ends before it number it. -/
theorem getD_pieces_append {first : List α} (hf : ∀ a ∈ first.getLast?, isEnd a = true)
    (rest : List α) :
    (pieces isEnd (first ++ rest)).getD (first.countP isEnd) [] =
      (pieces isEnd rest).headD [] := by
  induction first with
  | nil =>
    rw [List.nil_append, List.countP_nil]
    cases pieces isEnd rest <;> rfl
  | cons a first ih =>
    have hlast : ∀ b ∈ first.getLast?, isEnd b = true := by
      intro b hb
      rw [Option.mem_def] at hb
      apply hf
      rw [List.getLast?_cons, hb]
      rfl
    rw [List.cons_append, pieces]
    cases ha : isEnd a with
    | true =>
      rw [List.countP_cons_of_pos ha, if_pos rfl, List.getD_cons_succ]
      exact ih hlast
    | false =>
      rw [List.countP_cons_of_neg (by simp [ha]), if_neg (by simp), ← ih hlast]
      -- the last element is an end, and is not `a`, so the piece of `a` is not the one looked for
      obtain ⟨b, hb⟩ : ∃ b, first.getLast? = some b := by
        cases hl : first.getLast? with
        | some b => exact ⟨b, rfl⟩
        | none =>
          have := hf a (by rw [List.getLast?_cons, hl]; rfl)
          rw [ha] at this
          cases this
      obtain ⟨n, hn⟩ : ∃ n, first.countP isEnd = n + 1 :=
        Nat.exists_eq_succ_of_ne_zero
          (Nat.ne_of_gt (List.countP_pos_iff.mpr ⟨b, List.mem_of_getLast? hb, hlast b hb⟩))
      rw [hn]
      cases pieces isEnd (first ++ rest) with
      | nil => rfl
      | cons piece more => rfl

private theorem pieces_cons_of_end {a : α} (ha : isEnd a = true) (rest : List α) :
    pieces isEnd (a :: rest) = [a] :: pieces isEnd rest := by
  rw [pieces, if_pos ha]

private theorem pieces_cons_of_pieces {a : α} (ha : isEnd a = false) {rest piece : List α}
    {more : List (List α)} (h : pieces isEnd rest = piece :: more) :
    pieces isEnd (a :: rest) = (a :: piece) :: more := by
  rw [pieces, if_neg (by simp [ha]), h]

private theorem exists_pieces_cons (a : α) (rest : List α) :
    ∃ piece more, pieces isEnd (a :: rest) = piece :: more := by
  rw [← List.ne_nil_iff_exists_cons]
  intro hnone
  have hall := flatten_pieces isEnd (a :: rest)
  simp [hnone] at hall

/-- A sequence is cut behind an end, whatever follows. -/
theorem pieces_append {first : List α} (hf : ∀ a ∈ first.getLast?, isEnd a = true) (rest : List α) :
    pieces isEnd (first ++ rest) = pieces isEnd first ++ pieces isEnd rest := by
  induction first with
  | nil => rfl
  | cons a first ih =>
    cases first with
    | nil =>
      have ha : isEnd a = true := hf a rfl
      rw [List.singleton_append, pieces_cons_of_end ha, pieces_cons_of_end ha]
      rfl
    | cons b first =>
      have hrest := ih fun c hc => hf c (by rwa [List.getLast?_cons_cons])
      cases ha : isEnd a with
      | true =>
        rw [List.cons_append, pieces_cons_of_end ha, hrest, pieces_cons_of_end ha,
          List.cons_append]
      | false =>
        -- `a` goes to the piece of `b`, which is the first one with or without the rest
        obtain ⟨piece, more, hp⟩ : ∃ piece more, pieces isEnd (b :: first) = piece :: more :=
          exists_pieces_cons b first
        have hlong : pieces isEnd (b :: first ++ rest) = piece :: (more ++ pieces isEnd rest) := by
          rw [hrest, hp, List.cons_append]
        rw [List.cons_append, pieces_cons_of_pieces ha hlong, pieces_cons_of_pieces ha hp,
          List.cons_append]

/-- Elements up to an end are the first piece. -/
theorem pieces_append_cons {first : List α} (hf : ∀ a ∈ first, isEnd a = false) {a : α}
    (ha : isEnd a = true) (rest : List α) :
    pieces isEnd (first ++ a :: rest) = (first ++ [a]) :: pieces isEnd rest := by
  induction first with
  | nil => exact pieces_cons_of_end ha rest
  | cons b first ih =>
    rw [List.forall_mem_cons] at hf
    rw [List.cons_append, pieces_cons_of_pieces hf.1 (ih hf.2), List.cons_append]

/-- Elements without an end begin the first piece, if there are any. -/
theorem pieces_append_of_no_end {first : List α} (hf : ∀ a ∈ first, isEnd a = false)
    (hne : first ≠ []) (rest : List α) :
    pieces isEnd (first ++ rest) =
      (first ++ (pieces isEnd rest).headD []) :: (pieces isEnd rest).tail := by
  induction first with
  | nil => exact absurd rfl hne
  | cons a first ih =>
    rw [List.forall_mem_cons] at hf
    cases first with
    | nil =>
      rw [List.singleton_append, pieces, if_neg (by simp [hf.1])]
      cases pieces isEnd rest <;> rfl
    | cons b first => exact pieces_cons_of_pieces hf.1 (ih hf.2 (by simp))

/-- Elements without an end are one piece, if there are any. -/
theorem pieces_of_no_end {first : List α} (hf : ∀ a ∈ first, isEnd a = false) (hne : first ≠ []) :
    pieces isEnd first = [first] := by
  simpa [pieces] using pieces_append_of_no_end hf hne []

end Pieces

/-! ### Lines -/

/-- A line between what stands before it and what follows it in a text: there is no newline in it,
and it begins and ends at a newline or where the text does. -/
structure IsLine (before line after : List Char) : Prop where
  single : '\n' ∉ line
  begins : ∀ c ∈ before.getLast?, c = '\n'
  ends : ∀ c ∈ after.head?, c = '\n'

/-- Every text ends with the begin of a line. -/
theorem exists_line_begin (text : List Char) :
    ∃ before front, text = before ++ front ∧ '\n' ∉ front ∧ ∀ c ∈ before.getLast?, c = '\n' := by
  induction text using List.reverseRecOn with
  | nil => exact ⟨[], [], rfl, by simp, by simp⟩
  | append_singleton text a ih =>
    by_cases ha : a = '\n'
    · exact ⟨text ++ [a], [], by simp, by simp, by simp [ha]⟩
    · obtain ⟨before, front, rfl, hf, hb⟩ := ih
      exact ⟨before, front ++ [a], by simp, by simp [hf, Ne.symm ha], hb⟩

/-- Every text begins with the end of a line. -/
theorem exists_line_end (text : List Char) :
    ∃ back after, text = back ++ after ∧ '\n' ∉ back ∧ ∀ c ∈ after.head?, c = '\n' := by
  induction text with
  | nil => exact ⟨[], [], rfl, by simp, by simp⟩
  | cons a text ih =>
    by_cases ha : a = '\n'
    · exact ⟨[], a :: text, rfl, by simp, by simp [ha]⟩
    · obtain ⟨back, after, rfl, hb, he⟩ := ih
      exact ⟨a :: back, after, rfl, by simp [hb, Ne.symm ha], he⟩

/-- A character that is no newline stands on a line. -/
theorem exists_line {c : Char} (hc : c ≠ '\n') (pre post : List Char) :
    ∃ before front back after, pre = before ++ front ∧ post = back ++ after ∧
      IsLine before (front ++ c :: back) after := by
  obtain ⟨before, front, hpre, hf, hbegin⟩ := exists_line_begin pre
  obtain ⟨back, after, hpost, hb, hend⟩ := exists_line_end post
  exact ⟨before, front, back, after, hpre, hpost, ⟨by simp [hf, hb, Ne.symm hc], hbegin, hend⟩⟩

theorem chomp_of_not_mem {line : List Char} (h : '\n' ∉ line) : chomp line = line := by
  unfold chomp
  split
  · next hr => exact absurd (List.mem_reverse.mp (by rw [hr]; simp)) h
  · next hr => exact absurd (List.mem_reverse.mp (by rw [hr]; simp)) h
  · rfl

/-- At most a carriage return is cut off together with a newline. -/
theorem exists_chomp_newline (line : List Char) :
    ∃ cut, chomp (line ++ ['\n']) ++ cut = line ∧ ∀ c ∈ cut, c = '\r' := by
  rcases List.eq_nil_or_concat line with rfl | ⟨front, last, rfl⟩
  · exact ⟨[], rfl, by simp⟩
  · by_cases hl : last = '\r'
    · exact ⟨['\r'], by simp [chomp, hl], by simp⟩
    · exact ⟨[], by simp [chomp, hl], by simp⟩

private theorem no_end_of_not_mem {line : List Char} (h : '\n' ∉ line) :
    ∀ c ∈ line, (c == '\n') = false := by
  intro c hc
  rw [beq_eq_false_iff_ne]
  rintro rfl
  exact h hc

/-- Among the lines of a text a line has the number of newlines before it, and is itself less at most
a carriage return. -/
theorem IsLine.exists_shown {before line after : List Char} (h : IsLine before line after) :
    ∃ cut, (lines (before ++ line ++ after)).getD (before.count '\n') [] ++ cut = line ∧
      ∀ c ∈ cut, c = '\r' := by
  have hpiece : (pieces (· == '\n') (before ++ line ++ after)).getD (before.count '\n') [] =
      line ++ after.take 1 := by
    rw [List.append_assoc, List.count,
      getD_pieces_append (fun c hc => beq_iff_eq.mpr (h.begins c hc)),
      headD_pieces_append (no_end_of_not_mem h.single) fun c hc => beq_iff_eq.mpr (h.ends c hc)]
  have hshown : (lines (before ++ line ++ after)).getD (before.count '\n') [] =
      chomp (line ++ after.take 1) := by
    rw [← hpiece]
    exact List.getD_map _ [] chomp
  rw [hshown]
  cases after with
  | nil =>
    rw [List.take_nil, List.append_nil, chomp_of_not_mem h.single]
    exact ⟨[], List.append_nil line, by simp⟩
  | cons c after =>
    obtain rfl : c = '\n' := h.ends c rfl
    exact exists_chomp_newline line

theorem lines_append {before : List Char} (hb : ∀ c ∈ before.getLast?, c = '\n')
    (rest : List Char) : lines (before ++ rest) = lines before ++ lines rest := by
  rw [lines, pieces_append fun c hc => beq_iff_eq.mpr (hb c hc), List.map_append, lines, lines]

theorem lines_append_newline {line : List Char} (h : '\n' ∉ line) (rest : List Char) :
    lines (line ++ '\n' :: rest) = chomp (line ++ ['\n']) :: lines rest := by
  rw [lines, pieces_append_cons (no_end_of_not_mem h) (by decide), List.map_cons, lines]

theorem lines_of_not_mem {line : List Char} (h : '\n' ∉ line) (hne : line ≠ []) :
    lines line = [line] := by
  rw [lines, pieces_of_no_end (no_end_of_not_mem h) hne, List.map_singleton, chomp_of_not_mem h]

end ScrewLang.Text
