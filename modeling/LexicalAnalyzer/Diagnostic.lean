import LexicalAnalyzer.Position

/-!
Diagnostics: what the scanner finds wrong with a text. They never stop a scan; a report collects
them in the order in which they arise, and what becomes of them is decided when the whole text is
read.
-/
namespace LexicalAnalyzer

/-- A stable name for a kind of diagnostic, a series and a number within it. -/
structure DiagnosticCode where
  series : String
  number : Nat
  deriving DecidableEq, Repr

namespace DiagnosticCode

/-- The number is padded to four digits; a longer one is written in full. -/
def text (code : DiagnosticCode) : String :=
  let digits := toString code.number
  code.series ++ "".pushn '0' (4 - digits.length) ++ digits

/-- The code as it appears among other values. -/
def describe (code : DiagnosticCode) : String := s!"DiagnosticCode({code.text})"

def unexpectedCharacter : DiagnosticCode := ⟨"E", 1001⟩

def invalidNumber : DiagnosticCode := ⟨"E", 1003⟩

end DiagnosticCode

inductive DiagnosticKind where
  /-- A numeral that no numeral format admits. -/
  | malformedNumeral
  /-- A character that starts no token. -/
  | unrecognizedCharacter
  deriving DecidableEq, Repr

def DiagnosticKind.code : DiagnosticKind → DiagnosticCode
  | .malformedNumeral => .invalidNumber
  | .unrecognizedCharacter => .unexpectedCharacter

structure Diagnostic where
  kind : DiagnosticKind
  position : Position
  message : String
  deriving DecidableEq, Repr

namespace Diagnostic

def code (d : Diagnostic) : DiagnosticCode := d.kind.code

def text (d : Diagnostic) : String := s!"Error at {d.position.text}: {d.message}"

/-- What is said of a lexeme that is no proper token. -/
def undefinedMessage (lexeme : String) : String := s!"'{lexeme}' undefined identifier"

end Diagnostic

/-- The diagnostics of a run, in the order in which they arose. -/
structure Report where
  diagnostics : Array Diagnostic := #[]
  deriving DecidableEq, Repr

namespace Report

def record (r : Report) (d : Diagnostic) : Report := ⟨r.diagnostics.push d⟩

def size (r : Report) : Nat := r.diagnostics.size

def hasErrors (r : Report) : Bool := !r.diagnostics.isEmpty

def toList (r : Report) : List Diagnostic := r.diagnostics.toList

def countOf (kind : DiagnosticKind) (r : Report) : Nat :=
  r.toList.countP (·.kind = kind)

@[simp] theorem toList_record (r : Report) (d : Diagnostic) :
    (r.record d).toList = r.toList ++ [d] := by
  simp [record, toList]

@[simp] theorem size_record (r : Report) (d : Diagnostic) : (r.record d).size = r.size + 1 := by
  simp [record, size]

end Report

end LexicalAnalyzer
