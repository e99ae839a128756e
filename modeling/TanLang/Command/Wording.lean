import TanLang.Text
/-!
# The command — its fixed texts
-/

namespace TanLang

namespace Command

/-- Lines of text. -/
def linesText (lines : List String) : Text :=
  lines.flatMap fun line => Text.ofString line ++ [Text.newline]

/-- The version. -/
def versionText : Text := linesText ["tan version 'vdev' unknown unknown"]

/-- How the command is called, in one line. -/
def usageText : Text := linesText ["Usage: tan [options] [script]"]

/-- The list of the flags, shown where they are wrong. -/
def flagsText : Text := linesText [
  "Usage of tan:",
  "  -config string",
  "    \tLoad settings from a .toml or .yaml file",
  "  -db",
  "    \tEnable the dbOpen/dbExec/dbQuery/dbClose natives",
  "  -h\tDisplay help information and exit",
  "  -help",
  "    \tDisplay help information and exit",
  "  -log-file string",
  "    \tLog file path (if not set, logs to stderr)",
  "  -log-level string",
  "    \tLog level: trace, debug, info, warn, error, none (default \"none\")",
  "  -max-depth int",
  "    \tMaximum call depth before 'Stack overflow.' (default 2048)",
  "  -show-source",
  "    \tPrint source excerpts under diagnostics",
  "  -v\tDisplay version information and exit",
  "  -version",
  "    \tDisplay version information and exit"]

/-- The help. -/
def helpText : Text := linesText [
  "Usage: tan [options] [script]",
  "",
  "Options:",
  "  -config <path>     Load settings from a .toml, .yaml or .yml file.",
  "  -max-depth <n>     Maximum call depth. Default is 2048.",
  "  -db                Enable the database natives (sqlite3, mysql, postgres).",
  "  -show-source       Print source excerpts under diagnostics.",
  "  -help              Display this help information and exit.",
  "  -version           Display version information and exit.",
  "  -log-level <level> Set the log level: trace, debug, info, warn, error, none. " ++
    "Default is 'none'.",
  "  -log-file <path>   Specify a log file to write logs. Default is stderr.",
  "",
  "Details:",
  "This is the Tan programming language. Flags given on the command line",
  "override values from the config file.",
  "",
  "Examples:",
  "  tan                           Start the interactive prompt",
  "  tan -log-level=debug          Start with debug logging enabled",
  "  tan script.tan                Execute the provided Tan file",
  "  tan -config tan.toml x.tan    Execute with settings from tan.toml",
  "",
  "Version Information:",
  "  Version:    dev",
  "  Build Date: unknown",
  "  Commit:     unknown"]

end Command

end TanLang
