import LexicalAnalyzer.Position
import LexicalAnalyzer.Table.Vocabulary

/-!
Tokens: a kind, the text that was matched and the place where it starts. Every kind but one has a
table; error tokens are reported and never referenced.
-/
namespace LexicalAnalyzer

inductive TokenKind where
  | keyword | identifier | separator | number | error
  deriving DecidableEq, Repr

namespace TokenKind

def table? : TokenKind → Option TableKind
  | .keyword => some .keyword
  | .identifier => some .identifier
  | .separator => some .separator
  | .number => some .number
  | .error => none

def name : TokenKind → String
  | .keyword => "Keyword"
  | .identifier => "Identifier"
  | .separator => "Separator"
  | .number => "Number"
  | .error => "Error"

/-- A word is a keyword when the keyword table holds it, letter case included. -/
def ofWord (word : String) : TokenKind :=
  if (keywords.indexOf? word).isSome then .keyword else .identifier

end TokenKind

structure Token where
  kind : TokenKind
  lexeme : String
  position : Position
  deriving DecidableEq, Repr

def Token.text (t : Token) : String := s!"{t.kind.name}({t.lexeme}) at {t.position.text}"

end LexicalAnalyzer
