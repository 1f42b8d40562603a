import LexicalAnalyzer.Analysis
import LexicalAnalyzer.Text.Control

/-!
Events: what a run has to tell about its progress, for a log that a filter thins out. An event has
a level and belongs to a component of the program.
-/
namespace LexicalAnalyzer

/-- Levels from the least to the most talkative. -/
inductive LogLevel where
  | error | warn | info | debug | trace
  deriving DecidableEq, Repr

namespace LogLevel

def rank : LogLevel → Nat
  | .error => 1
  | .warn => 2
  | .info => 3
  | .debug => 4
  | .trace => 5

def name : LogLevel → String
  | .error => "ERROR"
  | .warn => "WARN"
  | .info => "INFO"
  | .debug => "DEBUG"
  | .trace => "TRACE"

def all : List LogLevel := [.error, .warn, .info, .debug, .trace]

end LogLevel

inductive Event where
  | analyzing (input : String)
  | commentOpened (position : Position)
  | commentClosed (position : Position)
  | lineScanned (line tokens : Nat) (mode : Mode)
  | endsInComment
  | diagnosed (d : Diagnostic)
  | analyzed (tokens identifiers numbers errors : Nat)
  | counted (table : TableKind) (references : Nat)
  | written (output log : String)
  | nothingWritten (reason : String)
  deriving DecidableEq, Repr

namespace Event

def level : Event → LogLevel
  | .analyzing _ | .analyzed .. | .written .. => .info
  | .commentOpened _ | .commentClosed _ => .trace
  | _ => .debug

/-- The component that an event belongs to: the scanner of comments, the command, which shares its
name with the scanner, or the rest of the library. -/
def component : Event → String
  | .commentOpened _ | .commentClosed _ => "mlc_lex::lexer::comment"
  | .nothingWritten _ => "mlc_lex"
  | _ => "mlc_drv"

/-- What is told, without the values that go with it. -/
def message : Event → String
  | .analyzing _ => "analyzing"
  | .commentOpened _ => "block comment opened"
  | .commentClosed _ => "block comment closed"
  | .lineScanned .. => "scanned line"
  | .endsInComment => "input ends inside a block comment"
  | .diagnosed d => d.text
  | .analyzed .. => "analysis finished"
  | .counted .. => "token references"
  | .written .. => "artifacts written"
  | .nothingWritten reason => s!"{reason}; no artifacts written"

/-- The values that go with the message, under their names. -/
def values : Event → List (String × String)
  | .analyzing input => [("input", input)]
  | .commentOpened p | .commentClosed p =>
    [("line", toString p.line), ("column", toString p.column)]
  | .lineScanned line tokens mode =>
    [("line", toString line), ("tokens", toString tokens), ("state", mode.name)]
  | .endsInComment | .nothingWritten _ => []
  | .diagnosed d => [("code", d.code.text)]
  | .analyzed tokens identifiers numbers errors =>
    [("tokens", toString tokens), ("identifiers", toString identifiers),
      ("numbers", toString numbers), ("errors", toString errors)]
  | .counted table references => [("table", table.name), ("count", toString references)]
  | .written output log => [("output", output), ("log", log)]

/-- The names of all that an event holds; the message has a name too. -/
def names (e : Event) : List String := "message" :: e.values.map (·.1)

/-- The message, and behind it the values. No message can steer a terminal. -/
def text (e : Event) : String :=
  " ".intercalate (Control.escape e.message :: e.values.map fun (name, value) => s!"{name}={value}")

/-- The events of one line: where comments open and close, then the line as a whole. -/
def ofLine (line : ScannedLine) : List Event :=
  line.commentEdges.map (fun
    | .opened column => .commentOpened ⟨line.number, column⟩
    | .closed column => .commentClosed ⟨line.number, column⟩) ++
  [.lineScanned line.number line.scan.tokens.length line.scan.mode]

/-- The events of an analysis: its lines, an unclosed comment, and every diagnostic. -/
def ofAnalysis (scanned : List ScannedLine) (a : Analysis) : List Event :=
  scanned.flatMap ofLine ++
  (if a.mode = .comment then [.endsInComment] else []) ++
  a.report.toList.map .diagnosed

end Event

end LexicalAnalyzer
