import ScrewLang.Text.Numeral

/-!
# Command-line arguments

A command has flags, options with a value, and at most one positional parameter. A flag or option is
written `--name`, or as a letter after a single dash; letters can be joined. The value of an option
stands in the same argument or in the next one. After `--` every argument is positional.

An option waits for its value, and its value is read, only when the next known argument or the end is
reached. So an unknown argument is reported before a bad value just in front of it.
Spec guidance: `SPEC_FULL.md` §15, component `commands`.
-/

namespace ScrewLang

namespace Arguments

/-- Everything that can be given on some command line. -/
inductive Parameter where
  | help
  | version
  | debug
  | maxSteps
  | timeout
  | file
  | bytes
  | plain
  | inputFile
  | text
  | bare
  | editor
deriving DecidableEq, Repr

/-- What values a parameter takes. -/
inductive Kind where
  | flag
  | number
  | path
  | texts
deriving DecidableEq, Repr

namespace Parameter

/-- The kind of every parameter. -/
def kind : Parameter → Kind
  | .maxSteps => .number
  | .timeout => .number
  | .file => .path
  | .inputFile => .path
  | .text => .texts
  | _ => .flag

/-- The name of a parameter in messages. -/
def display : Parameter → String
  | .help => "--help"
  | .version => "--version"
  | .debug => "--debug"
  | .maxSteps => "--max-steps <N>"
  | .timeout => "--timeout <MS>"
  | .file => "[FILE]"
  | .bytes => "--bytes"
  | .plain => "--plain"
  | .inputFile => "--file <FILE>"
  | .text => "[TEXT]..."
  | .bare => "--bare"
  | .editor => "--editor"

end Parameter

/-- Why a command line makes no sense. -/
inductive Fault where
  | unexpectedArgument (argument : String)
  | unexpectedValue (value : String) (parameter : Parameter)
  | missingValue (parameter : Parameter)
  | invalidValue (value : String) (parameter : Parameter) (cause : Numeral.Fault)
  | repeated (parameter : Parameter)
  | conflict (first second : Parameter)
  | lateCommand (name : String) (given : List Parameter)
deriving DecidableEq, Repr

/-- The wording of a fault. -/
def Fault.message : Fault → String
  | .unexpectedArgument argument => "unexpected argument '" ++ argument ++ "' found"
  | .unexpectedValue value parameter =>
    "unexpected value '" ++ value ++ "' for '" ++ parameter.display ++
      "' found; no more were expected"
  | .missingValue parameter =>
    "a value is required for '" ++ parameter.display ++ "' but none was supplied"
  | .invalidValue value parameter cause =>
    "invalid value '" ++ value ++ "' for '" ++ parameter.display ++ "': " ++ cause.message
  | .repeated parameter =>
    "the argument '" ++ parameter.display ++ "' cannot be used multiple times"
  | .conflict first second =>
    "the argument '" ++ first.display ++ "' cannot be used with '" ++ second.display ++ "'"
  | .lateCommand name given =>
    "the subcommand '" ++ name ++ "' cannot be used with" ++
      match given with
      | [parameter] => " '" ++ parameter.display ++ "'"
      | _ => ":"

/-- What a command accepts. -/
structure Grammar where
  /-- Parameters by their names after two dashes. -/
  longs : List (String × Parameter)
  /-- Parameters by their letters after one dash. -/
  shorts : List (Char × Parameter)
  positional : Option Parameter
  /-- Names of commands that may stand in the place of the first argument. -/
  commands : List String
  /-- Pairs of parameters that exclude each other. -/
  exclusive : List (Parameter × Parameter)
deriving DecidableEq, Repr

/-- A value as it was read. -/
inductive Value where
  | set
  | number (n : Nat)
  | path (path : String)
  | texts (texts : List String)
deriving DecidableEq, Repr

/-- The parameters given and read so far, in order. -/
abbrev Found := List (Parameter × Value)

/-- The state of reading a command line. -/
structure State where
  found : Found
  /-- A parameter not read yet, with its values so far. -/
  pending : Option (Parameter × List String)
  /-- Whether every further argument is positional. -/
  literal : Bool
deriving DecidableEq, Repr

namespace State

/-- Nothing has been read. -/
def start : State := ⟨[], none, false⟩

/-- Whether nothing known has been met yet. -/
def isFresh (state : State) : Bool :=
  state.found.isEmpty && state.pending.isNone

/-- The option that waits for its value. -/
def waiting? (state : State) : Option Parameter :=
  match state.pending with
  | some (parameter, []) => some parameter
  | _ => none

end State

/-- Read the values of a parameter. -/
def readValue (parameter : Parameter) (values : List String) : Except Fault Value :=
  match parameter.kind, values with
  | .flag, _ => .ok .set
  | .texts, values => .ok (.texts values)
  | .number, value :: _ =>
    match Numeral.parse value.toList with
    | .ok n => .ok (.number n)
    | .error cause => .error (.invalidValue value parameter cause)
  | .path, value :: _ => if value.isEmpty then .error (.missingValue parameter) else .ok (.path value)
  | _, [] => .error (.missingValue parameter)

/-- Take a parameter with all its values. A missing value is reported before a repetition, and that
before a bad value. -/
def take (found : Found) (parameter : Parameter) (values : List String) : Except Fault Found :=
  if values.isEmpty ∧ parameter.kind ≠ .flag then .error (.missingValue parameter)
  else if (found.lookup parameter).isSome then .error (.repeated parameter)
  else do
    let value ← readValue parameter values
    return found ++ [(parameter, value)]

/-- Take the parameter that is pending, if there is one. -/
def settle (state : State) : Except Fault Found :=
  match state.pending with
  | none => .ok state.found
  | some (parameter, values) => take state.found parameter values

/-- Take a parameter whose values are complete, after the one pending. -/
def give (state : State) (parameter : Parameter) (values : List String) : Except Fault State := do
  let found ← take (← settle state) parameter values
  return { state with found := found, pending := none }

/-- Let a parameter wait for its value, after the one pending. -/
def await (state : State) (parameter : Parameter) : Except Fault State := do
  let found ← settle state
  return { state with found := found, pending := some (parameter, []) }

/-- The name and the attached value of an argument that begins with two dashes. -/
def splitLong (body : List Char) : String × Option String :=
  let name := String.ofList (body.takeWhile (· != '='))
  match body.dropWhile (· != '=') with
  | [] => (name, none)
  | _ :: value => (name, some (String.ofList value))

/-- Read an argument that begins with two dashes, given the rest of it. -/
def readLong (grammar : Grammar) (state : State) (body : List Char) : Except Fault State :=
  let (name, value?) := splitLong body
  match grammar.longs.lookup name with
  | none => .error (.unexpectedArgument ("--" ++ name))
  | some parameter =>
    match parameter.kind, value? with
    | .flag, some value => .error (.unexpectedValue value parameter)
    | .flag, none => give state parameter []
    | _, some value => give state parameter [value]
    | _, none => await state parameter

/-- Read the letters after a single dash. A letter that takes a value takes what follows it, less an
equals sign. -/
def readShort (grammar : Grammar) : State → List Char → Except Fault State
  | state, [] => .ok state
  | state, letter :: rest =>
    match grammar.shorts.lookup letter with
    | none => .error (.unexpectedArgument (String.ofList ['-', letter]))
    | some parameter =>
      match parameter.kind, rest with
      | .flag, _ => do
        let next ← give state parameter []
        readShort grammar next rest
      | _, [] => await state parameter
      | _, '=' :: value => give state parameter [String.ofList value]
      | _, value => give state parameter [String.ofList value]

/-- The parameters that stand when the one pending is taken, or fails to be taken: a repetition
cancels the parameter, and one without value never comes to stand. -/
def State.standing (state : State) : List Parameter :=
  let taken := state.found.map Prod.fst
  match state.pending with
  | none => taken
  | some (_, []) => taken
  | some (parameter, _ :: _) =>
    if taken.contains parameter then taken.filter (· != parameter) else taken ++ [parameter]

/-- The fault of an argument for which no place is left. Where commands could have stood, it is taken
for one that comes too late. -/
def surplus (grammar : Grammar) (state : State) (argument : String) : Fault :=
  if grammar.commands.isEmpty ∨ state.isFresh then .unexpectedArgument argument
  else .lateCommand argument state.standing

/-- Whether the positional parameter has been given. -/
def State.hasPositional (state : State) (parameter : Parameter) : Bool :=
  (state.found.lookup parameter).isSome || state.pending.any (·.1 == parameter)

/-- Read a positional argument. One that takes several texts takes all arguments from here on. -/
def readPositional (grammar : Grammar) (state : State) (argument : String) : Except Fault State :=
  match grammar.positional with
  | none => .error (surplus grammar state argument)
  | some parameter =>
    if parameter.kind = .texts then
      if state.pending.any (·.1 == parameter) then
        .ok { state with
          pending := state.pending.map fun given => (given.1, given.2 ++ [argument]) }
      else do
        let found ← settle state
        return ⟨found, some (parameter, [argument]), true⟩
    else if state.hasPositional parameter then .error (surplus grammar state argument)
    else do
      let found ← settle state
      return { state with found := found, pending := some (parameter, [argument]) }

/-- Read one argument. -/
def readArgument (grammar : Grammar) (state : State) (argument : String) : Except Fault State :=
  if state.literal then readPositional grammar state argument
  else
    match argument.toList with
    | ['-', '-'] => .ok { state with literal := true }
    | '-' :: '-' :: body => readLong grammar state body
    | '-' :: letter :: letters => readShort grammar state (letter :: letters)
    | _ =>
      match state.waiting? with
      | some parameter => .ok { state with pending := some (parameter, [argument]) }
      | none => readPositional grammar state argument

/-- The fault of two parameters that exclude each other, the one given first named first. -/
def clash? (grammar : Grammar) (found : Found) : Option Fault :=
  found.findSome? fun given =>
    (grammar.exclusive.find? fun pair =>
        pair.1 == given.1 && (found.lookup pair.2).isSome).map
      fun pair => .conflict pair.1 pair.2

/-- A command line as it was read: parameters, or the name of a command and its arguments. -/
inductive Parsed where
  | parameters (found : Found)
  | command (name : String) (arguments : List String)
deriving DecidableEq, Repr

/-- Read arguments from a state on. -/
def readAll (grammar : Grammar) : State → List String → Except Fault Parsed
  | state, [] => do
    let found ← settle state
    match clash? grammar found with
    | some fault => .error fault
    | none => .ok (.parameters found)
  | state, argument :: rest =>
    if state.isFresh ∧ state.literal = false ∧ grammar.commands.contains argument then
      .ok (.command argument rest)
    else do
      let next ← readArgument grammar state argument
      readAll grammar next rest

/-- Read a command line. -/
def parse (grammar : Grammar) (arguments : List String) : Except Fault Parsed :=
  readAll grammar .start arguments

namespace Found

/-- Whether a flag was given. -/
def has (found : Found) (parameter : Parameter) : Bool :=
  (found.lookup parameter).isSome

/-- The number given for a parameter. -/
def number? (found : Found) (parameter : Parameter) : Option Nat :=
  match found.lookup parameter with
  | some (.number n) => some n
  | _ => none

/-- The path given for a parameter. -/
def path? (found : Found) (parameter : Parameter) : Option String :=
  match found.lookup parameter with
  | some (.path path) => some path
  | _ => none

/-- The texts given for a parameter. -/
def texts (found : Found) (parameter : Parameter) : List String :=
  match found.lookup parameter with
  | some (.texts texts) => texts
  | _ => []

end Found

end Arguments

end ScrewLang
