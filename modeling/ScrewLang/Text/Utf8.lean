/-!
# Text and its UTF-8 bytes

Program text is read as the bytes that encode it. `Text.bytes` is the encoding; `Text.chunks` is
the way back: it cuts any byte string into characters and broken pieces, where a broken piece is
the longest start of a well-formed sequence that the bytes then fail to complete. The strict decoder
accepts a byte string without broken pieces, and the lossy one writes U+FFFD for each of them.
-/

namespace ScrewLang.Text

/-- The bytes that encode a text, in order. -/
def bytes (text : String) : List UInt8 :=
  text.toList.flatMap String.utf8EncodeChar

/-- Whether a byte continues a character that an earlier byte began. -/
def isContinuation (b : UInt8) : Bool :=
  0x80 ≤ b && b ≤ 0xBF

/-- What a first byte announces: the bits it carries itself, how many bytes follow it, and the range
that the first of them lies in. The later ones are continuation bytes without further limits. -/
structure Lead where
  payload : Nat
  followers : Nat
  low : UInt8
  high : UInt8
deriving DecidableEq, Repr

/-- The announcement of a first byte. The narrowed ranges rule out overlong spellings, surrogates
and values above U+10FFFF; a byte that begins no character has none. -/
def Lead.ofByte? (b : UInt8) : Option Lead :=
  if b < 0x80 then some ⟨b.toNat, 0, 0x80, 0xBF⟩
  else if b < 0xC2 then none
  else if b < 0xE0 then some ⟨b.toNat - 0xC0, 1, 0x80, 0xBF⟩
  else if b < 0xF0 then
    some ⟨b.toNat - 0xE0, 2, if b = 0xE0 then 0xA0 else 0x80, if b = 0xED then 0x9F else 0xBF⟩
  else if b < 0xF5 then
    some ⟨b.toNat - 0xF0, 3, if b = 0xF0 then 0x90 else 0x80, if b = 0xF4 then 0x8F else 0xBF⟩
  else none

/-- The longest run of at most `n` admissible followers, the first of them in `low..high`. -/
def followers : (n : Nat) → (low high : UInt8) → List UInt8 → List UInt8
  | 0, _, _, _ => []
  | _ + 1, _, _, [] => []
  | n + 1, low, high, b :: rest =>
    if low ≤ b ∧ b ≤ high then b :: followers n 0x80 0xBF rest else []

/-- The piece that begins at the byte `b`: its character, or `none` if it is broken, and how many
bytes of `rest` belong to it. -/
def chunk (b : UInt8) (rest : List UInt8) : Option Char × Nat :=
  match Lead.ofByte? b with
  | none => (none, 0)
  | some lead =>
    let run := followers lead.followers lead.low lead.high rest
    if run.length = lead.followers then
      (some (Char.ofNat (run.foldl (fun value next => value * 64 + next.toNat % 64) lead.payload)),
        run.length)
    else (none, run.length)

/-- The characters and broken pieces (`none`) of a byte string, in order. -/
def chunks : List UInt8 → List (Option Char)
  | [] => []
  | b :: rest =>
    let piece := chunk b rest
    piece.1 :: chunks (rest.drop piece.2)
termination_by input => input.length
decreasing_by
  simp only [List.length_drop, List.length_cons]
  omega

/-- The text that a byte string encodes, if it is well formed throughout. -/
def decode? (input : List UInt8) : Option String :=
  let pieces := chunks input
  if pieces.all Option.isSome then some (String.ofList (pieces.filterMap id)) else none

/-- Stands for a broken piece in a lossily decoded text. -/
def replacement : Char := '\uFFFD'

/-- The text of a byte string with one replacement character for every broken piece. -/
def decodeLossy (input : List UInt8) : String :=
  String.ofList ((chunks input).map (·.getD replacement))

end ScrewLang.Text
