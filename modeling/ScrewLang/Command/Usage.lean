import ScrewLang.Report.Window

/-!
# Usage texts

The texts that explain the command line. The name of the program is filled in.
Spec guidance: `SPEC_FULL.md` §15, component `commands`.
-/

namespace ScrewLang

namespace Usage

/-- The version of the interpreter. -/
def version : String := "0.1.0"

/-- Lines, each with its end. -/
def block (lines : List String) : String :=
  String.join (lines.map (· ++ "\n"))

/-- The usage of the program as a whole. -/
def top (program : String) : String :=
  block
    ["Usage:",
      "  " ++ program ++ " <FILE>.scw [--debug|-d] [--max-steps N] [--timeout MS]  # Run a Screw program",
      "  " ++ program ++ " check <FILE>.scw                                        # Validate without running",
      "  " ++ program ++
        " write [--bytes] [TEXT...]                               # Generate Screw that prints TEXT/STDIN/file",
      "  " ++ program ++ " repl                                                    # Start a Screw REPL",
      "  " ++ program ++ " -v                                                      # Show version information",
      "",
      "Run \"" ++ program ++ " <subcommand> --help\" for more info.",
      "",
      "Environment:",
      "  SCREW_MAX_STEPS, SCREW_TIMEOUT_MS   Default run limits (0 = none)",
      "  SCREW_CONFIG                        Path to screw.toml (empty disables it)",
      "  SCREW_LOG                           Log filter, e.g. debug",
      ""]

/-- The usage of `check`. -/
def check (program : String) : String :=
  block
    ["Usage:",
      "  " ++ program ++ " check <FILE>.scw",
      "",
      "Options:",
      "  --help, -h   Show this help",
      "",
      "Description:",
      "  Validates a Screw file without running it: the file must contain a '~'",
      "  terminator and balanced braces before it. Prints the number of",
      "  instructions on success.",
      ""]

/-- The usage of `write`. -/
def write (program : String) : String :=
  block
    ["Usage:",
      "  " ++ program ++
        " write [--bytes] [--plain] [TEXT...]      # Read UTF-8 TEXT args, or STDIN if no TEXT is given",
      "  " ++ program ++
        " write [--bytes] [--plain] --file <PATH>  # Read from file instead of STDIN",
      "",
      "Options:",
      "  --file,  -f <PATH>  Read input from file at PATH (otherwise reads from TEXT or STDIN)",
      "  --bytes             Treat input as raw bytes (no UTF-8 required)",
      "  --plain             Never use multiplication loops",
      "  --help,  -h         Show this help",
      "",
      "Description:",
      "  Generates a Screw program that, when run, outputs the provided input bytes.",
      "  The program is printed to stdout, ends with '~', and is followed by a newline.",
      "  Save it to a .scw file and run it with `" ++ program ++ " <file>.scw`.",
      ""]

/-- The usage of `repl`. -/
def repl (program : String) : String :=
  block
    ["Usage:",
      "  " ++ program ++ " repl [--bare|--editor]   # Start a Screw REPL (read-eval-print loop)",
      "",
      "Options:",
      "  --help, -h   Show this help",
      "  --bare       Force non-interactive bare mode",
      "  --editor     Force interactive editor mode (errors if stdin is not a TTY)",
      "",
      "Notes:",
      "    - Ctrl+D runs the current buffer on *nix/macOS, Ctrl+Z on Windows.",
      "    - Ctrl+C exits the REPL immediately.",
      "    - Comments (';' to end of line) are allowed; a trailing '~' is optional.",
      "    - Each execution starts with a fresh tape and cursor.",
      "    - A newline is printed after each execution.",
      "    - SCREW_REPL_ONCE=1 exits after a single execution.",
      "    - Mode selection:",
      "        * Flags: --bare|--editor override environment and auto-detection.",
      "        * Env: SCREW_REPL_MODE=bare|editor overrides auto-detection.",
      "        * Auto-detect: a TTY stdin starts the editor; otherwise bare mode.",
      ""]

/-- What to do when the command line makes no sense. -/
def hint (style : Report.Style) (program : String) : String :=
  block
    [style.hint "To run a screw file:" ++ " " ++ program ++ " <file>.scw",
      style.hint "For version information:" ++ " " ++ program ++ " -v"]

/-- The version in its frame. -/
def banner : String :=
  block
    ["",
      "                  Screw Interpreter",
      "========================================================",
      "|| Version " ++ version,
      "|| Screw language based on Brainf**k by Urban Müller",
      "========================================================",
      ""]

end Usage

end ScrewLang
