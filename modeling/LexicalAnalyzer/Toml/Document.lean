import LexicalAnalyzer.Toml.Reader

/-!
TOML documents: the statements of a text, carried out one after another.
-/
namespace LexicalAnalyzer

namespace Toml

/-- The statements of a text. A byte order mark in front of them is passed over. -/
def statements (text : List Char) : Except Error (List Statement) :=
  let text := if text.head? = some '\ufeff' then text.tail else text
  (Reader.many Reader.statement text).map (·.1)

/-- The definitions that a document makes. -/
def parse (text : List Char) : Except Error Definitions := do
  (← statements text).foldlM Definitions.apply {}

end Toml

end LexicalAnalyzer
