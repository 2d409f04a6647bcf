import ScrewLang.Text.Blank

/-!
# Terminal colours

The sixteen named colours of a terminal and colours given by their red, green and blue parts. A text
is painted bold between two escape sequences.
Spec guidance: `SPEC_FULL.md` §14, component `config`.
-/

namespace ScrewLang

/-- A colour of a terminal. -/
inductive Color where
  | black
  | red
  | green
  | yellow
  | blue
  | purple
  | cyan
  | white
  | lightGray
  | darkGray
  | lightRed
  | lightGreen
  | lightYellow
  | lightBlue
  | lightPurple
  | lightCyan
  | rgb (red green blue : UInt8)
deriving DecidableEq, Repr

namespace Color

/-- The colour with a given name. -/
def ofName? (name : String) : Option Color :=
  match name with
  | "black" => some .black
  | "red" => some .red
  | "green" => some .green
  | "yellow" => some .yellow
  | "blue" => some .blue
  | "purple" => some .purple
  | "magenta" => some .purple
  | "cyan" => some .cyan
  | "white" => some .white
  | "gray" => some .lightGray
  | "grey" => some .lightGray
  | "lightgray" => some .lightGray
  | "light_gray" => some .lightGray
  | "darkgray" => some .darkGray
  | "dark_grey" => some .darkGray
  | "darkgrey" => some .darkGray
  | "dark_gray" => some .darkGray
  | "lightred" => some .lightRed
  | "light_red" => some .lightRed
  | "lightgreen" => some .lightGreen
  | "light_green" => some .lightGreen
  | "lightyellow" => some .lightYellow
  | "light_yellow" => some .lightYellow
  | "lightblue" => some .lightBlue
  | "light_blue" => some .lightBlue
  | "lightpurple" => some .lightPurple
  | "light_purple" => some .lightPurple
  | "lightmagenta" => some .lightPurple
  | "light_magenta" => some .lightPurple
  | "lightcyan" => some .lightCyan
  | "light_cyan" => some .lightCyan
  | _ => none

/-- The value of a hexadecimal digit of either case. -/
def hexDigit? (c : Char) : Option Nat :=
  if '0' ≤ c ∧ c ≤ '9' then some (c.toNat - '0'.toNat)
  else if 'a' ≤ c ∧ c ≤ 'f' then some (c.toNat - 'a'.toNat + 10)
  else if 'A' ≤ c ∧ c ≤ 'F' then some (c.toNat - 'A'.toNat + 10)
  else none

/-- The byte that two characters write: two hexadecimal digits, or a `+` and one digit. -/
def hexByte? (first second : Char) : Option UInt8 := do
  let high ← if first = '+' then some 0 else hexDigit? first
  let low ← hexDigit? second
  return UInt8.ofNat (high * 16 + low)

/-- The colour that a text names: `#` and three pairs of hexadecimal digits, or a name in any case.
Blanks around it do not count. Follows `parse_color`. -/
def parse? (text : String) : Option Color :=
  match Text.trim text.toList with
  | '#' :: digits =>
    match digits with
    | [r1, r2, g1, g2, b1, b2] => do
      return .rgb (← hexByte? r1 r2) (← hexByte? g1 g2) (← hexByte? b1 b2)
    | _ => none
  | name => ofName? (Text.fold name)

/-- The hexadecimal digit of a value below sixteen, in lower case. -/
def hexGlyph (value : Nat) : Char :=
  if value < 10 then Char.ofNat ('0'.toNat + value) else Char.ofNat ('a'.toNat + (value - 10))

/-- A byte as two hexadecimal digits. -/
def hexByte (b : UInt8) : List Char :=
  [hexGlyph (b.toNat / 16), hexGlyph (b.toNat % 16)]

/-- The text under which a colour is written down. -/
def name : Color → String
  | .black => "black"
  | .red => "red"
  | .green => "green"
  | .yellow => "yellow"
  | .blue => "blue"
  | .purple => "purple"
  | .cyan => "cyan"
  | .white => "white"
  | .lightGray => "lightgray"
  | .darkGray => "darkgray"
  | .lightRed => "lightred"
  | .lightGreen => "lightgreen"
  | .lightYellow => "lightyellow"
  | .lightBlue => "lightblue"
  | .lightPurple => "lightpurple"
  | .lightCyan => "lightcyan"
  | .rgb r g b => String.ofList ('#' :: hexByte r ++ hexByte g ++ hexByte b)

/-- The terminal's code for a foreground in a colour. -/
def code : Color → String
  | .black => "30"
  | .red => "31"
  | .green => "32"
  | .yellow => "33"
  | .blue => "34"
  | .purple => "35"
  | .cyan => "36"
  | .white => "37"
  | .darkGray => "90"
  | .lightRed => "91"
  | .lightGreen => "92"
  | .lightYellow => "93"
  | .lightBlue => "94"
  | .lightPurple => "95"
  | .lightCyan => "96"
  | .lightGray => "97"
  | .rgb r g b =>
    "38;2;" ++ Nat.repr r.toNat ++ ";" ++ Nat.repr g.toNat ++ ";" ++ Nat.repr b.toNat

/-- A text in bold and in a colour if `enabled`, and the plain text otherwise. -/
def paint (color : Color) (enabled : Bool) (text : String) : String :=
  if enabled then "\x1b[1;" ++ color.code ++ "m" ++ text ++ "\x1b[0m" else text

end Color

end ScrewLang
