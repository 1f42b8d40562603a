import LexicalAnalyzer.Disk.Path
import LexicalAnalyzer.Failure
import LexicalAnalyzer.Toml.Document

/-!
The settings of a run. They come from one source: a file that is named, or else `mlc.toml` in the
working directory, or else `mlc/mlc.toml` in the user's configuration directory, or else the
defaults. A source that exists decides, also when it turns out to be unusable. The command line may
then override what the source says.
-/
namespace LexicalAnalyzer

structure Settings where
  /-- Log events down to the debug level. -/
  verbose : Bool := false
  /-- Where the log artifact goes. -/
  logFile : String := "lexer.logs"
  deriving DecidableEq, Repr

namespace Settings

def fileName : String := "mlc.toml"

/-- A reader of the documents in which settings are written. -/
abbrev DocumentReader := List Char → Except Toml.Error Toml.Definitions

def booleanAt (key : String) : Toml.Definition → Except Toml.Error Bool
  | .value (.boolean b) => .ok b
  | _ => .error (.wrongType key "boolean")

def stringAt (key : String) : Toml.Definition → Except Toml.Error String
  | .value (.string s) => .ok s
  | _ => .error (.wrongType key "string")

/-- Takes in what a key is defined to be. A key that means nothing here is left alone. -/
def takeIn (s : Settings) : String × Toml.Definition → Except Toml.Error Settings
  | (key, x) =>
    if key = "verbose" then (booleanAt key x).map fun verbose => { s with verbose }
    else if key = "log_file" then (stringAt key x).map fun logFile => { s with logFile }
    else .ok s

/-- The settings that a document makes. Its keys are taken in as they come, so the first one of a
wrong type is the one that is told. -/
def ofDefinitions (d : Toml.Definitions) : Except Toml.Error Settings :=
  d.topLevel.foldlM takeIn {}

def parse (text : List Char) (read : DocumentReader := Toml.parse) : Except Failure Settings :=
  (read text >>= ofDefinitions).mapError fun e => .settings (.malformed e)

/-- A log file that is given replaces the one of the settings; being verbose can only be switched
on. -/
def override (s : Settings) (logFile : Option String) (verbose : Bool) : Settings :=
  { verbose := s.verbose || verbose, logFile := logFile.getD s.logFile }

section Loading

variable {m : Type → Type} [Monad m] [FileAccess m]

/-- The settings in the file at a path. -/
def loadFrom (path : String) (read : DocumentReader := Toml.parse) :
    m (Except Failure Settings) := do
  if ← FileAccess.pathExists path then
    match ← readTextFile path with
    | .ok text => return parse text read
    | .error e => return .error (.file path e)
  else return .error (.settings (.fileNotFound path))

/-- The file in the user's configuration directory. -/
def userFile (directory : String) : String := Path.join (Path.join directory "mlc") fileName

/-- The file that decides when none is named. -/
def findFile (userDirectory : Option String) : m (Option String) := do
  if ← FileAccess.pathExists fileName then return some fileName
  match userDirectory with
  | none => return none
  | some directory =>
    if ← FileAccess.pathExists (userFile directory) then return some (userFile directory)
    else return none

/-- The settings of the source that decides. -/
def load (named : Option String) (userDirectory : Option String)
    (read : DocumentReader := Toml.parse) : m (Except Failure Settings) := do
  match named with
  | some path => loadFrom path read
  | none =>
    match ← findFile userDirectory with
    | some path => loadFrom path read
    | none => return .ok {}

end Loading

end Settings

end LexicalAnalyzer
