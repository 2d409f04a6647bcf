import ScrewLang.Source.Brace
import ScrewLang.Source.Scan

/-!
# Validation of a source text

A text is valid when it has a terminator, no NUL byte stands before that, and the braces of its code
are balanced. The checks run in this order and the first failure is reported. The NUL check sees
comments, the brace check does not.
Spec guidance: `SPEC_FULL.md` §4.1 and §11, component `validate`.
-/

namespace ScrewLang

namespace Validation

/-- Why a source text is no program. -/
inductive Fault where
  | missingTerminator
  | embeddedNul (location : Location)
  | unbalancedBraces (brace : Brace) (location : Location)
deriving DecidableEq, Repr

namespace Fault

/-- The place that a fault points at. -/
def location? : Fault → Option Location
  | .missingTerminator => none
  | .embeddedNul location => some location
  | .unbalancedBraces _ location => some location

/-- The wording of a fault. -/
def message : Fault → String
  | .missingTerminator => "Program does not have terminating character '~'"
  | .embeddedNul location => "Program contains a NUL byte at " ++ location.describe
  | .unbalancedBraces brace location =>
    "Program has mismatched braces: unmatched '" ++ brace.glyph.toString ++ "' at " ++
      location.describe

end Fault

/-- Whether a text has a terminator at all, in a comment or not. Follows `has_terminator`. -/
def hasTerminator (source : List UInt8) : Bool :=
  source.contains Scan.terminator

/-- Ask for a terminator without a NUL byte before it. Follows `check_terminator`. -/
def checkTerminator (source : List UInt8) : Except Fault Unit :=
  if hasTerminator source then
    match (source.takeWhile (· != Scan.terminator)).findIdx? (· == 0) with
    | some offset => .error (.embeddedNul (.ofOffset source offset))
    | none => .ok ()
  else .error .missingTerminator

/-- Ask for balanced braces, given where the loops still open were opened, innermost first. -/
def balance : (opened : List Location) → List Scan.Item → Except Fault Unit
  | [], [] => .ok ()
  | location :: _, [] => .error (.unbalancedBraces .opening location)
  | opened, item :: rest =>
    match Brace.ofByte? item.byte with
    | none => balance opened rest
    | some .opening => balance (item.location :: opened) rest
    | some .closing =>
      match opened with
      | [] => .error (.unbalancedBraces .closing item.location)
      | _ :: outer => balance outer rest

/-- Ask for balanced braces in the code of a text. A closing brace without partner is reported where
it stands; failing that, the last opening brace without partner. Follows `check_braces`. -/
def checkBraces (source : List UInt8) : Except Fault Unit :=
  balance [] (Scan.ofSource source).items

/-- All checks, the terminator first. Follows `validate`. -/
def validate (source : List UInt8) : Except Fault Unit := do
  checkTerminator source
  checkBraces source

/-- The braces of a code byte and of what follows it. -/
theorem balance_cons (opened : List Location) (item : Scan.Item) (rest : List Scan.Item) :
    balance opened (item :: rest) =
      match Brace.ofByte? item.byte with
      | none => balance opened rest
      | some .opening => balance (item.location :: opened) rest
      | some .closing =>
        match opened with
        | [] => .error (.unbalancedBraces .closing item.location)
        | _ :: outer => balance outer rest := by
  cases opened <;> rfl

end Validation

end ScrewLang
