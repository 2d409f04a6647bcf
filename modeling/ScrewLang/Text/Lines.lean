/-!
# Lines of a text

A line ends with a newline, and the last one may lack it. `Text.pieces` keeps the line ends, so the
pieces of a sequence concatenate to it; `Text.lines` drops them, together with one carriage return
right before a newline.
-/

namespace ScrewLang.Text

variable {α : Type}

/-- A sequence cut after every element that `isEnd` accepts. No piece is empty. -/
def pieces (isEnd : α → Bool) : List α → List (List α)
  | [] => []
  | a :: rest =>
    if isEnd a then [a] :: pieces isEnd rest
    else
      match pieces isEnd rest with
      | [] => [[a]]
      | piece :: more => (a :: piece) :: more

/-- Cutting loses nothing. -/
theorem flatten_pieces (isEnd : α → Bool) (input : List α) :
    (pieces isEnd input).flatten = input := by
  induction input with
  | nil => rfl
  | cons a rest ih =>
    rw [pieces]
    split
    · simp [ih]
    · split
      · next h => simp [h] at ih; simp [← ih]
      · next h => simp [h] at ih; simp [ih]

/-- A line without its newline, and without a carriage return right before that newline. -/
def chomp (line : List Char) : List Char :=
  match line.reverse with
  | '\n' :: '\r' :: rest => rest.reverse
  | '\n' :: rest => rest.reverse
  | _ => line

/-- The lines of a text, without their ends. -/
def lines (text : List Char) : List (List Char) :=
  (pieces (· == '\n') text).map chomp

end ScrewLang.Text
