import LexicalAnalyzer.Analysis
import LexicalAnalyzer.Disk.Access
import LexicalAnalyzer.Toml.Value

/-!
Failures: what keeps a run from its end. A failure has a message, and one that comes from the file
system has a cause of its own.
-/
namespace LexicalAnalyzer

/-- Why there are no settings. -/
inductive SettingsError where
  | fileNotFound (path : String)
  | malformed (cause : Toml.Error)
  /-- Any other reason, in words. -/
  | other (reason : String)
  deriving DecidableEq, Repr

def SettingsError.message : SettingsError → String
  | .fileNotFound path => s!"Configuration file not found: {path}"
  | .malformed cause => s!"Failed to parse configuration: {cause.message}"
  | .other reason => reason

inductive Failure where
  /-- A file could not be read or written. -/
  | file (path : String) (cause : FileError)
  /-- The settings are missing or make no sense. -/
  | settings (cause : SettingsError)
  /-- A token could not be taken into its table. -/
  | table (cause : TableError)
  /-- The analysis is not clean, so nothing is written. -/
  | lexical (count : Nat)
  deriving DecidableEq, Repr

namespace Failure

def message : Failure → String
  | .file path _ => s!"cannot access '{path}'"
  | .settings cause => s!"Configuration error: {cause.message}"
  | .table cause => cause.message
  | .lexical count => s!"{count} lexical error(s) found"

/-- What lies behind the failure. -/
def cause? : Failure → Option String
  | .file _ cause => some cause.message
  | _ => none

/-- The message and what lies behind it. -/
def chain (f : Failure) : List String := f.message :: f.cause?.toList

end Failure

/-- Fails if the analysis has diagnostics, with their number. -/
def Analysis.requireClean (a : Analysis) : Except Failure Unit :=
  if a.hasErrors then .error (.lexical a.report.size) else .ok ()

end LexicalAnalyzer
