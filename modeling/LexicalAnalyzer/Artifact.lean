import LexicalAnalyzer.Analysis

/-!
The two artifacts of an analysis. The result holds the numbers, the identifiers and the references,
one line each, every item with one space behind it. The log shows the same to a reader. Both are
given as the pieces in which they are written.
-/
namespace LexicalAnalyzer

namespace Artifact

/-- The result: numbers, identifiers, references. -/
def resultPieces (a : Analysis) : List String :=
  a.vocabulary.numbers.entries.map (· ++ " ") ++ ["\n"] ++
  a.vocabulary.identifiers.entries.map (· ++ " ") ++ ["\n"] ++
  a.references.toList.map (·.text ++ " ") ++ ["\n"]

/-- Entries under their positions, a line each. -/
def numbered (entries : List String) : List String :=
  entries.zipIdx.map fun (entry, index) => s!"{index}: {entry}\n"

/-- A reference with the lexeme that it stands for. -/
def referenceLine (v : Vocabulary) (r : Reference) : Except TableError String :=
  (v.resolve r.table r.index).map fun lexeme => s!"({r.table.code},{r.index}) : {lexeme}\n"

/-- The log: identifiers, numbers, tokens. It fails only on a reference that means nothing. -/
def logPieces (a : Analysis) : Except TableError (List String) := do
  let tokens ← a.references.toList.mapM (referenceLine a.vocabulary)
  return ["[Identificators]\n"] ++ numbered a.vocabulary.identifiers.entries ++
    ["\n", "[Numbers]\n"] ++ numbered a.vocabulary.numbers.entries ++
    ["\n", "[Tokens]\n"] ++ tokens

def resultText (a : Analysis) : String := String.join (resultPieces a)

def logText (a : Analysis) : Except TableError String := (logPieces a).map String.join

end Artifact

end LexicalAnalyzer
