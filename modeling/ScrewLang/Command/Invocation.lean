import ScrewLang.Command.Arguments
import ScrewLang.Repl.Mode

/-!
# What a command line asks for

The grammars of the four commands, and the requests that their command lines stand for.
Spec guidance: `SPEC_FULL.md` §15, component `commands`.
-/

namespace ScrewLang

/-- How a program is to be run. -/
structure RunRequest where
  file : Option String
  debug : Bool
  maxSteps : Option Nat
  timeout : Option Nat
deriving DecidableEq, Repr

/-- What a program is to be generated for. -/
structure WriteRequest where
  bytes : Bool
  plain : Bool
  file : Option String
  texts : List String
deriving DecidableEq, Repr

/-- A command whose help can be asked for. -/
inductive Topic where
  | top
  | check
  | write
  | repl
deriving DecidableEq, Repr

/-- What a command line asks for. -/
inductive Invocation where
  | help (topic : Topic)
  | version (file : Option String)
  | run (request : RunRequest)
  | check (file : Option String)
  | write (request : WriteRequest)
  | repl (flag : Option Repl.Mode)
deriving DecidableEq, Repr

namespace Invocation

open Arguments

/-- Running a program, which needs no command name. -/
def topGrammar : Grammar where
  longs := [("help", .help), ("version", .version), ("debug", .debug), ("max-steps", .maxSteps),
    ("timeout", .timeout)]
  shorts := [('h', .help), ('v', .version), ('d', .debug)]
  positional := some .file
  commands := ["check", "write", "repl"]
  exclusive := []

/-- Checking a program. -/
def checkGrammar : Grammar where
  longs := [("help", .help)]
  shorts := [('h', .help)]
  positional := some .file
  commands := []
  exclusive := []

/-- Generating a program. -/
def writeGrammar : Grammar where
  longs := [("bytes", .bytes), ("plain", .plain), ("file", .inputFile), ("help", .help)]
  shorts := [('f', .inputFile), ('h', .help)]
  positional := some .text
  commands := []
  exclusive := []

/-- Starting a session. -/
def replGrammar : Grammar where
  longs := [("bare", .bare), ("editor", .editor), ("help", .help)]
  shorts := [('h', .help)]
  positional := none
  commands := []
  exclusive := [(.bare, .editor), (.editor, .bare)]

/-- The request of a command line without a command name. -/
def ofTop (found : Found) : Invocation :=
  if found.has .help then .help .top
  else if found.has .version then .version (found.path? .file)
  else
    .run ⟨found.path? .file, found.has .debug, found.number? .maxSteps, found.number? .timeout⟩

/-- The request of a `check` command line. -/
def ofCheck (found : Found) : Invocation :=
  if found.has .help then .help .check else .check (found.path? .file)

/-- The request of a `write` command line. -/
def ofWrite (found : Found) : Invocation :=
  if found.has .help then .help .write
  else
    .write ⟨found.has .bytes, found.has .plain, found.path? .inputFile, found.texts .text⟩

/-- The request of a `repl` command line. -/
def ofRepl (found : Found) : Invocation :=
  if found.has .help then .help .repl
  else if found.has .bare then .repl (some .bare)
  else if found.has .editor then .repl (some .editor)
  else .repl none

/-- The parameters of a command line without further commands. -/
def parameters (grammar : Grammar) (arguments : List String) : Except Fault Found := do
  match ← Arguments.parse grammar arguments with
  | .parameters found => .ok found
  | .command _ _ => .ok []

/-- The request that a command line stands for. -/
def parse (arguments : List String) : Except Fault Invocation := do
  match ← Arguments.parse topGrammar arguments with
  | .parameters found => return ofTop found
  | .command name rest =>
    match name with
    | "check" => return ofCheck (← parameters checkGrammar rest)
    | "write" => return ofWrite (← parameters writeGrammar rest)
    | _ => return ofRepl (← parameters replGrammar rest)

end Invocation

end ScrewLang
