/-!
# Usage and help texts

Every command has a usage text, which stands before error messages, and a help text, which begins
with the usage text.
-/

namespace TreeLint.Command

/-- Rows of text, each with a line end. -/
def rowsText (rows : List String) : String :=
  String.join (rows.map (· ++ "\n"))

/-- The usage text of the program. -/
def mainUsage : String :=
  rowsText
    ["usage: typelint [-h] [-V] [--log-level \x7bDEBUG,INFO,WARNING,ERROR\x7d]",
     "                \x7blint,l,rules\x7d ..."]

/-- The help text of the program. -/
def mainHelp : String :=
  mainUsage ++ rowsText
    ["",
     "Rule-based linter for typed syntax trees",
     "",
     "positional arguments:",
     "  \x7blint,l,rules\x7d        Available commands",
     "    lint (l)            Lint serialized syntax trees",
     "    rules               List the available lint rules",
     "",
     "options:",
     "  -h, --help            show this help message and exit",
     "  -V, --version         show program's version number and exit",
     "  --log-level \x7bDEBUG,INFO,WARNING,ERROR\x7d",
     "                        Logging level for diagnostics about the linter itself"]

/-- The usage text of the lint command. -/
def lintUsage : String :=
  rowsText
    ["usage: typelint lint [-h] [--format \x7btext,pretty,json,lsp\x7d] [--allow RULE]",
     "                     [--warn RULE] [--deny RULE] [--deny-category CATEGORY]",
     "                     [--no-directives] [--allow-unknown-kinds] [--jobs JOBS]",
     "                     inputs [inputs ...]"]

/-- The help text of the lint command. -/
def lintHelp : String :=
  lintUsage ++ rowsText
    ["",
     "positional arguments:",
     "  inputs                Tree files (JSON) produced by the front end",
     "",
     "options:",
     "  -h, --help            show this help message and exit",
     "  --format \x7btext,pretty,json,lsp\x7d",
     "                        Output format (default: text)",
     "  --allow RULE          Disable a rule (name or code); may be repeated",
     "  --warn RULE           Report a rule as a warning; may be repeated",
     "  --deny RULE           Report a rule as an error; may be repeated",
     "  --deny-category CATEGORY",
     "                        Treat all rules in CATEGORY as errors (types, style)",
     "  --no-directives       Ignore '// typelint: ...' directive comments in the",
     "                        source",
     "  --allow-unknown-kinds",
     "                        Accept node kinds typelint does not know instead of",
     "                        failing",
     "  --jobs JOBS, -j JOBS  Number of files to lint in parallel"]

/-- The usage text of the command that lists rules. -/
def rulesUsage : String :=
  rowsText
    ["usage: typelint rules [-h] [--json]"]

/-- The help text of the command that lists rules. -/
def rulesHelp : String :=
  rulesUsage ++ rowsText
    ["",
     "options:",
     "  -h, --help  show this help message and exit",
     "  --json      Output the rule list as JSON"]

/-- The version of the program. -/
def version : String :=
  "typelint 0.1.0\n"

end TreeLint.Command
