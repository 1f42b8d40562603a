import LexicalAnalyzer.Scan.Comment
import LexicalAnalyzer.Scan.Line
import LexicalAnalyzer.Text.Lines

/-!
A source text scanned line by line. Lines are numbered in order; the mode in which one line ends
is the mode in which the next one starts, and one report goes through all of them.
-/
namespace LexicalAnalyzer

structure ScannedLine where
  number : Nat
  text : List Char
  /-- The mode in which the line starts. -/
  mode : Mode
  scan : LineScan
  deriving DecidableEq, Repr

/-- Scans lines in order, the first of them under the given number. Lines and columns are counted
without a bound, and counters of 32 bits come to the same below 2^32 - 2 lines and below 2^32 - 2
characters on each. -/
def scanLines : Nat → Mode → Report → List (List Char) → List ScannedLine
  | _, _, _, [] => []
  | number, mode, report, text :: rest =>
    let scan := scanLine text number mode report
    ⟨number, text, mode, scan⟩ :: scanLines (number + 1) scan.mode scan.report rest

/-- The scan of a whole text, from its first line in normal mode. -/
def scanText (text : List Char) : List ScannedLine := scanLines 1 .normal {} (lines text)

/-- Where comments open and close on the line. -/
def ScannedLine.commentEdges (line : ScannedLine) : List CommentEdge :=
  (LexicalAnalyzer.commentEdges line.mode 1 line.text).1

end LexicalAnalyzer
