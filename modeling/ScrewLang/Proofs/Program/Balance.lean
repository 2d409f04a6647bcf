import ScrewLang.Proofs.Program.Partners

/-!
# Balanced brace words

A word is balanced when its braces nest: each of its loops is an opening brace, a balanced word and
a closing brace. A jump table exists exactly for these words.
-/

namespace ScrewLang

namespace Jumps

/-- The words whose braces nest. -/
inductive Balanced : List (Option Brace) → Prop where
  | nil : Balanced []
  /-- A place without a brace. -/
  | other {rest : List (Option Brace)} : Balanced rest → Balanced (none :: rest)
  /-- A loop, and what follows it. -/
  | loop {body rest : List (Option Brace)} : Balanced body → Balanced rest →
      Balanced (some .opening :: body ++ some .closing :: rest)

/-- A word that closes `count` braces opened before it and is balanced otherwise. -/
private def Closing : (count : Nat) → List (Option Brace) → Prop
  | 0, word => Balanced word
  | count + 1, word => ∃ body rest, word = body ++ some .closing :: rest ∧ Balanced body ∧
      Closing count rest

private theorem Closing.other {count : Nat} {word : List (Option Brace)} (h : Closing count word) :
    Closing count (none :: word) := by
  cases count with
  | zero => exact Balanced.other h
  | succ count =>
    obtain ⟨body, rest, rfl, hb, hr⟩ := h
    exact ⟨none :: body, rest, rfl, hb.other, hr⟩

private theorem Closing.loop {count : Nat} {body word : List (Option Brace)} (hb : Balanced body)
    (h : Closing count word) :
    Closing count (some .opening :: body ++ some .closing :: word) := by
  cases count with
  | zero => exact Balanced.loop hb h
  | succ count =>
    obtain ⟨next, rest, rfl, hn, hr⟩ := h
    refine ⟨some .opening :: body ++ some .closing :: next, rest, ?_, hb.loop hn, hr⟩
    simp

/-- A table that is filled to its end closes the braces that were open, and all others. -/
private theorem closing_of_fill {index : Nat} {opened : List Nat} {start result : Table}
    {word : List (Option Brace)} (h : fill index opened start word = .ok result) :
    Closing opened.length word := by
  fun_induction fill index opened start word with
  | case1 => exact .nil
  | case2 => cases h
  | case3 index opened table rest ih => exact (ih h).other
  | case4 index opened table rest ih =>
    obtain ⟨body, after, rfl, hb, ha⟩ := ih h
    exact .loop hb ha
  | case5 => cases h
  | case6 index place outer table rest ih => exact ⟨[], rest, rfl, .nil, ih h⟩

/-- A balanced word leaves the braces open that were open before it. -/
theorem Balanced.exists_fill {word : List (Option Brace)} (h : Balanced word) (index : Nat)
    (opened : List Nat) (table : Table) (rest : List (Option Brace)) :
    ∃ filled, fill index opened table (word ++ rest) =
      fill (index + word.length) opened filled rest := by
  induction h generalizing index opened table rest with
  | nil => exact ⟨table, rfl⟩
  | @other word _ ih =>
    obtain ⟨filled, hf⟩ := ih (index + 1) opened table rest
    refine ⟨filled, ?_⟩
    rw [List.cons_append, fill_none, hf, List.length_cons]
    congr 1
    omega
  | @loop body next _ _ ihb ihn =>
    obtain ⟨inner, hi⟩ := ihb (index + 1) (index :: opened) table
      (some .closing :: (next ++ rest))
    obtain ⟨filled, hf⟩ := ihn (index + 1 + body.length + 1) opened
      (link inner index (index + 1 + body.length)) rest
    refine ⟨filled, ?_⟩
    calc fill index opened table (some .opening :: body ++ some .closing :: next ++ rest)
        = fill index opened table
            (some .opening :: (body ++ some .closing :: (next ++ rest))) := by simp
      _ = fill (index + 1 + body.length) (index :: opened) inner
            (some .closing :: (next ++ rest)) := by rw [fill_opening, hi]
      _ = fill (index + 1 + body.length + 1) opened
            (link inner index (index + 1 + body.length)) (next ++ rest) := by rw [fill]
      _ = fill (index + (some .opening :: body ++ some .closing :: next).length) opened filled
            rest := by
          rw [hf]
          congr 1
          simp only [List.cons_append, List.length_cons, List.length_append]
          omega

/-- A word has a jump table exactly when it is balanced. -/
theorem exists_table_iff {word : List (Option Brace)} :
    (∃ jumps, table word = .ok jumps) ↔ Balanced word := by
  constructor
  · rintro ⟨jumps, h⟩
    exact closing_of_fill h
  · intro h
    obtain ⟨filled, hf⟩ := h.exists_fill 0 [] (Array.replicate word.length none) []
    rw [List.append_nil] at hf
    exact ⟨filled, by rw [table, hf, fill]⟩

end Jumps

end ScrewLang
