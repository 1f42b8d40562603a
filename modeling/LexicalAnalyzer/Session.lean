import LexicalAnalyzer.Artifact
import LexicalAnalyzer.Log.Event
import LexicalAnalyzer.Settings

/-!
A session carries out runs under given settings: it analyzes a file and, if the analysis is clean,
writes both artifacts. It is all or nothing: where there are diagnostics nothing is written, and a
result whose log cannot be written is removed again.
-/
namespace LexicalAnalyzer

/-- What an activity comes to, and the events on its way. -/
structure Logged (α : Type) where
  result : Except Failure α
  events : List Event

structure Session where
  settings : Settings := {}
  deriving DecidableEq, Repr

namespace Session

/-- Scans and analyzes a text. -/
def analyzeText (text : List Char) : Logged Analysis :=
  let scanned := scanText text
  match Analysis.ofScan scanned with
  | .ok a => ⟨.ok a, Event.ofAnalysis scanned a⟩
  | .error e => ⟨.error (.table e), []⟩

section Files

variable {m : Type → Type} [Monad m] [FileAccess m]

/-- The analysis of the file at a path. -/
def analyzeFile (path : String) : m (Logged Analysis) := do
  match ← FileAccess.readFile path with
  | .ok bytes => return analyzeText (Utf8.decodeLossy bytes)
  | .error e => return ⟨.error (.file path e), []⟩

/-- Analyzes a file and tells how it went. -/
def analyze (input : String) : m (Logged Analysis) := do
  let analyzed ← analyzeFile input
  let summary : List Event :=
    match analyzed.result with
    | .ok a => [.analyzed a.references.size a.vocabulary.identifiers.size a.vocabulary.numbers.size
        a.report.size]
    | .error _ => []
  return ⟨analyzed.result, .analyzing input :: analyzed.events ++ summary⟩

/-- Writes the result and then the log. When the log cannot be written the result is removed. -/
def writeBoth (output logFile result log : String) : m (Except Failure Unit) := do
  match ← FileAccess.writeFile output (Utf8.encode result) with
  | .error e => return .error (.file output e)
  | .ok () =>
    match ← FileAccess.writeFile logFile (Utf8.encode log) with
    | .error e =>
      discard <| FileAccess.removeFile output
      return .error (.file logFile e)
    | .ok () => return .ok ()

/-- Writes the artifacts of a clean analysis and refuses any other. Both texts are made before
anything is written, and a log that cannot be made counts as one that cannot be written. -/
def write (s : Session) (a : Analysis) (output : String) : m (Logged Unit) := do
  match a.requireClean, Artifact.logText a with
  | .error f, _ => return ⟨.error f, []⟩
  | .ok (), .error e => return ⟨.error (.file s.settings.logFile (.other e.message)), []⟩
  | .ok (), .ok log =>
    let logFile := s.settings.logFile
    match ← writeBoth output logFile (Artifact.resultText a) log with
    | .error f => return ⟨.error f, []⟩
    | .ok () =>
      let counts := a.usage.map fun (table, count) => Event.counted table count
      return ⟨.ok (), counts ++ [.written output logFile]⟩

/-- Analyzes a file and, if the analysis is clean, writes both artifacts. -/
def run (s : Session) (input output : String) : m (Logged Analysis) := do
  let analyzed ← analyze input
  match analyzed.result with
  | .error _ => return analyzed
  | .ok a =>
    if a.hasErrors then return analyzed
    let written ← s.write a output
    return ⟨written.result.map fun () => a, analyzed.events ++ written.events⟩

end Files

end Session

end LexicalAnalyzer
