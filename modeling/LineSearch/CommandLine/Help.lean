namespace LineSearch.CommandLine

/-!
# What the program says about itself
-/

/-- The line that tells the version. -/
def versionText : String :=
  "ergrep 0.1.0\n"

/-- The lines that tell how the program is used. -/
def helpText : String :=
  "A small grep with a backtracking extended-regex engine.\n" ++
  "\n" ++
  "Usage: ergrep [OPTIONS] [ARGS]...\n" ++
  "\n" ++
  "Arguments:\n" ++
  "  [ARGS]...  The pattern (when -E is not given), then files or directories\n" ++
  "\n" ++
  "Options:\n" ++
  "  -E, --extended-regexp <PATTERN>  Pattern to search for\n" ++
  "  -r, --recursive                  Search directories recursively\n" ++
  "  -v, --verbose...                 Log more detail to stderr (repeatable)\n" ++
  "  -h, --help                       Print help\n" ++
  "  -V, --version                    Print version\n"

end LineSearch.CommandLine
