import LexicalAnalyzer.Command.Options
import LexicalAnalyzer.Text.Control

/-!
What the command says about itself. The help shows each option, and for an option that an
environment variable may stand in for also the value that the variable has.
-/
namespace LexicalAnalyzer

namespace Command

def versionText : String := "mlc-lex 0.1.0\n"

def usageLine : String := "Usage: mlc-lex [OPTIONS] <INPUT> <OUTPUT>"

/-- The width of the column in which the options stand. -/
def helpColumn : Nat := 29

/-- A variable and its value, which is empty when the variable is not set. The lines of a value
stand below each other. -/
def variableHelp (name : String) (value : Option String) : String :=
  let indent := "\n" ++ String.ofList (List.replicate helpColumn ' ')
  let shown := indent.intercalate ((value.getD "").splitOn "\n")
  s!"[env: {name}={shown}]"

def helpText (env : Environment) : String :=
  let verbose := variableHelp "MLC_VERBOSE" env.verbose
  let config := variableHelp "MLC_CONFIG" env.config
  let noColor := variableHelp "MLC_NO_COLOR" env.noColor
  Control.plain <| String.join <| [
    "Lexical analyzer for the MLC teaching language",
    "",
    usageLine,
    "",
    "Arguments:",
    "  <INPUT>   Source file to analyze",
    "  <OUTPUT>  Result file (tables and token stream)",
    "",
    "Options:",
    "  -l, --log-file <LOG_FILE>  Log file (default: from config, else lexer.logs)",
    "  -v, --verbose              Enable verbose output " ++ verbose,
    "  -c, --config <CONFIG>      Path to configuration file " ++ config,
    "      --no-color             Disable color output " ++ noColor,
    "  -h, --help                 Print help",
    "  -V, --version              Print version"].map (· ++ "\n")

end Command

end LexicalAnalyzer
