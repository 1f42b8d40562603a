import LexicalAnalyzer.Scan.Source
import LexicalAnalyzer.Text.Utf8

/-!
The analysis of a source text: every token that is no error is taken into the vocabulary and stands
in the result as a reference, a line with a table and a position in it. Errors stay in the report,
and an analysis with an empty report is clean.
-/
namespace LexicalAnalyzer

/-- A token as the analysis passes it on. The number of its line has no bound; a counter of 32 bits
holds the same one below 2^32 - 2 lines. -/
structure Reference where
  line : Nat
  table : TableKind
  index : Nat
  deriving DecidableEq, Repr

def Reference.text (r : Reference) : String := s!"{r.line},{r.table.code},{r.index}"

structure Analysis where
  vocabulary : Vocabulary := {}
  references : Array Reference := #[]
  report : Report := {}
  /-- The mode behind the last line. An unclosed comment is no error. -/
  mode : Mode := .normal
  deriving DecidableEq, Repr

namespace Analysis

/-- Takes in a token. -/
def record (a : Analysis) (t : Token) : Except TableError Analysis :=
  match t.kind.table? with
  | none => .ok a
  | some table =>
    match a.vocabulary.intern table t.lexeme with
    | .ok (index, vocabulary) =>
      .ok { a with vocabulary, references := a.references.push ⟨t.position.line, table, index⟩ }
    | .error e => .error e

/-- Takes in scanned lines that follow those taken in so far. The report and the mode become those
behind the last line. -/
def extend (a : Analysis) (scanned : List ScannedLine) : Except TableError Analysis := do
  let a ← (scanned.flatMap (·.scan.tokens)).foldlM record a
  match scanned.getLast? with
  | some last => return { a with report := last.scan.report, mode := last.scan.mode }
  | none => return a

def ofScan (scanned : List ScannedLine) : Except TableError Analysis := extend {} scanned

def ofText (text : List Char) : Except TableError Analysis := ofScan (scanText text)

/-- Bytes that are no UTF-8 are read as U+FFFD: ignored in a comment, reported elsewhere. -/
def ofBytes (bytes : Bytes) : Except TableError Analysis := ofText (Utf8.decodeLossy bytes)

def hasErrors (a : Analysis) : Bool := a.report.hasErrors

/-- How many references there are into each table. -/
def usage (a : Analysis) : List (TableKind × Nat) :=
  TableKind.all.map fun table => (table, a.references.toList.countP (·.table = table))

end Analysis

end LexicalAnalyzer
