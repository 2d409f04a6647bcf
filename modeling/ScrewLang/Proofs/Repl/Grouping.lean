import Mathlib.Data.List.Chain
import ScrewLang.Proofs.Repl.Highlighting

/-!
# The pieces of a highlighted text

Pieces are put together character by character. A piece is complete as soon as a character in another
style comes, and not before. So the pieces are the runs of characters in one style, none of them
empty and none of them shorter than the style lasts. The style of a character is settled when it is
met, by what stands before it.
-/

namespace ScrewLang

namespace Highlight

/-! ### Runs -/

namespace Runs

variable {runs : Runs}

/-- The pieces put together so far, with the pending one. -/
def all (runs : Runs) : List (Style × Array Char) :=
  runs.complete.toList ++ runs.pending.toList

/-- After the first character a piece is pending; no piece is empty, and no two neighbours have the
same style. -/
structure Maximal (runs : Runs) : Prop where
  begun : runs.pending = none → runs.complete = #[]
  nonempty : ∀ piece ∈ runs.all, piece.2 ≠ #[]
  differ : (runs.all.map Prod.fst).IsChain (· ≠ ·)

theorem maximal_empty : empty.Maximal where
  begun := fun _ => rfl
  nonempty := by simp [all, empty]
  differ := by simp [all, empty]

/-- Of maximal pieces the pending one is always listed. -/
theorem Maximal.toList_toArray (h : runs.Maximal) : runs.toArray.toList = runs.all := by
  obtain ⟨complete, pending⟩ := runs
  cases pending with
  | none => simp [toArray, all]
  | some piece =>
    have hne : piece.2 ≠ #[] := h.nonempty piece (by simp [all])
    simp [toArray, all, hne]

/-- One more character leaves the pieces maximal. -/
theorem Maximal.push (h : runs.Maximal) (character : Style × Char) :
    (runs.push character).Maximal := by
  obtain ⟨complete, pending⟩ := runs
  obtain ⟨style, c⟩ := character
  obtain ⟨hbegun, hne, hdiffer⟩ := h
  cases pending with
  | none =>
    obtain rfl : complete = #[] := hbegun rfl
    exact ⟨by simp [Runs.push], by simp [Runs.push, all], by simp [Runs.push, all]⟩
  | some piece =>
    obtain ⟨last, text⟩ := piece
    by_cases hs : last = style
    · subst hs
      rw [push_of_eq]
      refine ⟨by simp, ?_, by simpa [all] using hdiffer⟩
      rw [all, List.forall_mem_append] at hne ⊢
      exact ⟨hne.1, by simp⟩
    · have hall : all ⟨complete.push (last, text), some (style, #[c])⟩ =
          all ⟨complete, some (last, text)⟩ ++ [(style, #[c])] := by simp [all]
      rw [push_of_ne hs]
      refine ⟨by simp, ?_, ?_⟩
      · rw [hall, List.forall_mem_append]
        exact ⟨hne, by simp⟩
      · rw [hall, List.map_append, List.isChain_append]
        exact ⟨hdiffer, by simp, by simp [all, hs]⟩

theorem Maximal.foldl_push (h : runs.Maximal) (characters : List (Style × Char)) :
    (characters.foldl Runs.push runs).Maximal := by
  induction characters generalizing runs with
  | nil => exact h
  | cons first rest ih => exact ih (h.push first)

end Runs

/-! ### Styles from what stands before -/

/-- The context behind some text. -/
def Context.behind (context : Context) (text : List Char) : Context :=
  text.foldl (fun context c => (context.enter c).leave c) context

/-- The style of a character by what stands before it. -/
def styleBehind (front : List Char) (c : Char) : Style :=
  ((Context.start.behind front).enter c).style c

/-- What follows does not change the style of a character. -/
theorem styled_append (context : Context) (front back : List Char) :
    styled context (front ++ back) = styled context front ++ styled (context.behind front) back := by
  induction front generalizing context with
  | nil => rfl
  | cons c front ih => rw [List.cons_append, styled, ih, styled]; rfl

theorem length_styled (context : Context) (text : List Char) :
    (styled context text).length = text.length := by
  rw [← List.length_map (f := Prod.snd), map_snd_styled]

/-- Styles are told apart by their looks. -/
theorem look_injective {style next : Style} (h : style.look = next.look) : style = next := by
  revert h
  cases style <;> cases next <;> decide

/-! ### Pieces -/

/-- The characters of some pieces are those of their texts. -/
theorem map_snd_characters (parts : List (Style × String)) :
    (parts.flatMap fun piece => piece.2.toList.map fun c => (piece.1, c)).map Prod.snd =
      parts.flatMap fun piece => piece.2.toList := by
  simp [List.map_flatMap, Function.comp_def]

/-- The pieces of a text make up the text. -/
theorem flatMap_pieces (text : String) :
    (pieces text).flatMap (fun piece => piece.2.toList) = text.toList := by
  rw [← map_snd_characters, ← map_snd_styled .start text.toList, ← shown_eq_styled, shown]

/-- The pieces of a text are its runs in one style. -/
theorem maximal_pieces (text : String) :
    (∀ piece ∈ pieces text, piece.2 ≠ "") ∧ ((pieces text).map Prod.fst).IsChain (· ≠ ·) := by
  have h := Runs.maximal_empty.foldl_push (styled .start text.toList)
  rw [pieces, h.toList_toArray]
  constructor
  · intro piece hp
    obtain ⟨run, hr, rfl⟩ := List.mem_map.mp hp
    simpa [String.ofList_eq_empty_iff] using h.nonempty run hr
  · rw [List.map_map]
    exact h.differ

/-- A piece is in the style that each of its characters has by what stands before it in the text. -/
theorem style_of_pieces {text : String} {before after : List (Style × String)}
    {piece : Style × String} {front back : List Char} {c : Char}
    (h : pieces text = before ++ piece :: after) (hc : piece.2.toList = front ++ c :: back) :
    piece.1 = styleBehind ((before.flatMap fun earlier => earlier.2.toList) ++ front) c := by
  let passed := before.flatMap (fun earlier => earlier.2.toList) ++ front
  let drawn := before.flatMap (fun earlier => earlier.2.toList.map fun d => (earlier.1, d)) ++
    front.map fun d => (piece.1, d)
  obtain ⟨rest, hshown⟩ : ∃ rest, shown text = drawn ++ (piece.1, c) :: rest := by
    rw [shown, h, List.flatMap_append, List.flatMap_cons, hc, List.map_append, List.map_cons]
    exact ⟨_, by simp only [drawn, List.append_assoc, List.cons_append]; rfl⟩
  obtain ⟨after, htext⟩ : ∃ after, text.toList = passed ++ c :: after := by
    rw [← flatMap_pieces, h, List.flatMap_append, List.flatMap_cons, hc]
    exact ⟨_, by simp only [passed, List.append_assoc, List.cons_append]; rfl⟩
  have hdrawn : drawn.map Prod.snd = passed := by
    rw [List.map_append, map_snd_characters, List.map_map]
    simp [passed, Function.comp_def]
  have hlength : drawn.length = (styled .start passed).length := by
    rw [length_styled, ← hdrawn, List.length_map]
  rw [shown_eq_styled, htext, styled_append, styled] at hshown
  exact (congrArg Prod.fst (List.cons.inj (List.append_inj hshown hlength.symm).2).1).symm

/-- Pieces are the longest runs in one style. Their texts put together are the text; none of them is
empty, and neighbours look different. A piece is in the style that each of its characters has by
what stands before that character, whatever follows. So the characters of a text are shown in the
same way in any text that begins with it. -/
theorem pieces_are_maximal_runs (text : String) :
    String.join ((pieces text).map Prod.snd) = text ∧
    (∀ piece ∈ pieces text, piece.2 ≠ "") ∧
    ((pieces text).map fun piece => piece.1.look).IsChain (· ≠ ·) ∧
    (∀ before piece after front c back, pieces text = before ++ piece :: after →
      piece.2.toList = front ++ c :: back →
      piece.1 = styleBehind ((String.join (before.map Prod.snd)).toList ++ front) c) ∧
    ∀ front back : String, text = front ++ back →
      (shown text).take front.length = shown front := by
  obtain ⟨hnonempty, hdiffer⟩ := maximal_pieces text
  refine ⟨?_, hnonempty, ?_, ?_, ?_⟩
  · rw [← String.toList_inj, String.toList_join, List.flatMap_map, flatMap_pieces]
  · rw [List.isChain_map] at hdiffer ⊢
    exact hdiffer.imp fun _ _ hne hlook => hne (look_injective hlook)
  · intro before piece after front c back h hc
    rw [String.toList_join, List.flatMap_map]
    exact style_of_pieces h hc
  · rintro front back rfl
    rw [shown_eq_styled, shown_eq_styled, String.toList_append, styled_append,
      List.take_left' (by rw [length_styled, String.length_toList])]

/-- The second piece of a text is a comment with its newline; its last character but one is in the
style that the text before it gives. The text is also cut within that piece. -/
theorem pieces_are_maximal_runs_comment :
    let text := "++; é\n>~x"
    let second : Style × String := (.comment, "; é\n")
    (pieces text = [(.increment, "++"), second, (.right, ">"), (.terminator, "~"), (.comment, "x")] ∧
        second.2 ≠ "" ∧ second.2.toList = "; ".toList ++ 'é' :: ['\n'] ∧
        second.1 = styleBehind "++; ".toList 'é') ∧
      text = "++; " ++ "é\n>~x" ∧ (shown text).take 4 = shown "++; " := by
  intro text second
  have hpieces : pieces text =
      [(.increment, "++"), second, (.right, ">"), (.terminator, "~"), (.comment, "x")] := by
    decide +kernel
  obtain ⟨-, hnonempty, -, hstyle, hbegin⟩ := pieces_are_maximal_runs text
  refine ⟨⟨hpieces, hnonempty second (by simp [hpieces]), by decide, ?_⟩, by decide, ?_⟩
  · exact hstyle [(.increment, "++")] second _ "; ".toList 'é' ['\n'] hpieces (by decide)
  · exact hbegin "++; " "é\n>~x" (by decide)

end Highlight

end ScrewLang
