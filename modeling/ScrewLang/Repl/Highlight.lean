/-!
# Highlighting

The editor shows every character in a style that depends on the character and on what stands before
it: instructions in colour, comments and everything after the terminator in grey italics. Neighbours
in the same style form one piece.
Spec guidance: `SPEC_FULL.md` §18, components `repl` and `theme`: `ScrewHighlighter`.
-/

namespace ScrewLang

namespace Highlight

/-- What a character is shown as. -/
inductive Style where
  | right
  | left
  | increment
  | decrement
  | output
  | input
  | flow
  | dump
  | terminator
  | comment
  | other
deriving DecidableEq, Repr

/-- How a style looks: a foreground colour and two marks. -/
structure Look where
  red : UInt8
  green : UInt8
  blue : UInt8
  bold : Bool
  italic : Bool
deriving DecidableEq, Repr

/-- The look of every style. -/
def Style.look : Style → Look
  | .right => ⟨0x89, 0xDC, 0xEB, true, false⟩
  | .left => ⟨0x94, 0xE2, 0xD5, true, false⟩
  | .increment => ⟨0xA6, 0xE3, 0xA1, true, false⟩
  | .decrement => ⟨0xF3, 0x8B, 0xA8, true, false⟩
  | .output => ⟨0xF9, 0xE2, 0xAF, true, false⟩
  | .input => ⟨0xFA, 0xB3, 0x87, true, false⟩
  | .flow => ⟨0xCB, 0xA6, 0xF7, true, false⟩
  | .dump => ⟨0xF5, 0xC2, 0xE7, true, false⟩
  | .terminator => ⟨0xCD, 0xD6, 0xF4, true, false⟩
  | .comment => ⟨0x6C, 0x70, 0x86, false, true⟩
  | .other => ⟨0x58, 0x5B, 0x70, false, false⟩

/-- The style of a character of code. Follows `style_for`. -/
def Style.ofCode (c : Char) : Style :=
  match c with
  | '>' => .right
  | '<' => .left
  | '+' => .increment
  | '-' => .decrement
  | '.' => .output
  | '?' => .input
  | '\x7b' => .flow
  | '\x7d' => .flow
  | '*' => .dump
  | '^' => .dump
  | '~' => .terminator
  | _ => if '0' ≤ c ∧ c ≤ '9' then .dump else .other

/-- What has been met on the way through a text: a comment that is still open, and the terminator. -/
structure Context where
  inComment : Bool
  terminated : Bool
deriving DecidableEq, Repr

namespace Context

/-- The start of a text. -/
def start : Context := ⟨false, false⟩

/-- A comment opens with its mark, which belongs to it. Behind the terminator no comment opens. -/
def enter (context : Context) (c : Char) : Context :=
  if c = ';' ∧ ¬context.terminated then { context with inComment := true } else context

/-- The style of a character. -/
def style (context : Context) (c : Char) : Style :=
  if context.terminated ∨ context.inComment then .comment else Style.ofCode c

/-- A comment closes behind its newline. The terminator counts wherever it stands. -/
def leave (context : Context) (c : Char) : Context where
  inComment := context.inComment && c != '\n'
  terminated := context.terminated || c == '~'

end Context

/-- The characters of a text met in some context, with their styles. -/
def styled : Context → List Char → List (Style × Char)
  | _, [] => []
  | context, c :: rest =>
    let entered := context.enter c
    (entered.style c, c) :: styled (entered.leave c) rest

/-- Pieces on the way through a text: those that are complete, and the one that the next character
may still join. -/
structure Runs where
  complete : Array (Style × Array Char)
  pending : Option (Style × Array Char)
deriving DecidableEq, Repr

namespace Runs

/-- Before the first character. -/
def empty : Runs := ⟨#[], none⟩

/-- One more character. It joins the pending piece if that has its style; otherwise the pending piece
is complete, and the character begins another one. -/
def push (runs : Runs) (character : Style × Char) : Runs :=
  let (style, c) := character
  match runs.pending with
  | none => { runs with pending := some (style, #[c]) }
  | some (last, text) =>
    if last = style then { runs with pending := some (last, text.push c) }
    else ⟨runs.complete.push (last, text), some (style, #[c])⟩

/-- A character in the style of the pending piece joins it. -/
theorem push_of_eq (complete : Array (Style × Array Char)) (text : Array Char) (style : Style)
    (c : Char) :
    push ⟨complete, some (style, text)⟩ (style, c) = ⟨complete, some (style, text.push c)⟩ :=
  if_pos rfl

/-- A character in another style completes the pending piece. -/
theorem push_of_ne {last style : Style} (h : last ≠ style) (complete : Array (Style × Array Char))
    (text : Array Char) (c : Char) :
    push ⟨complete, some (last, text)⟩ (style, c) =
      ⟨complete.push (last, text), some (style, #[c])⟩ :=
  if_neg h

/-- All pieces. The pending one is the last, unless it is empty. -/
def toArray (runs : Runs) : Array (Style × Array Char) :=
  match runs.pending with
  | none => runs.complete
  | some piece => if piece.2.isEmpty then runs.complete else runs.complete.push piece

end Runs

/-- The pieces of a text, each with its style. Follows `highlight`. -/
def pieces (text : String) : List (Style × String) :=
  let runs := (styled .start text.toList).foldl Runs.push .empty
  runs.toArray.toList.map fun piece => (piece.1, String.ofList piece.2.toList)

end Highlight

end ScrewLang
