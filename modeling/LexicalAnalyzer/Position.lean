/-!
Places in a source text: a line and a column, both counted from one, the column in characters.
Positions are ordered as they are read, by line first.
-/
namespace LexicalAnalyzer

/-- A place in a text. The numbers have no bound. Counters of 32 bits hold the same ones below
2^32 - 2 lines and below 2^32 - 2 characters on each; that range is kept by `ByteCursor` alone. -/
structure Position where
  line : Nat
  column : Nat
  deriving DecidableEq, Repr

namespace Position

/-- Stands for no place in any text. -/
def unknown : Position := ⟨0, 0⟩

def text (p : Position) : String := s!"[{p.line},{p.column}]"

instance : Ord Position where
  compare p q := (compare p.line q.line).then (compare p.column q.column)

/-- Puts positions into reading order. -/
def sort (ps : List Position) : List Position :=
  ps.mergeSort fun p q => (compare p q).isLE

end Position

end LexicalAnalyzer
