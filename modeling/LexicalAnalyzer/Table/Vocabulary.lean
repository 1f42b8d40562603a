import LexicalAnalyzer.Table.Basic

/-!
The vocabulary of a run: the keywords and separators of the source language, which are fixed, and
the numbers and identifiers met so far.
-/
namespace LexicalAnalyzer

def keywords : FixedTable :=
  ⟨["program", "begin", "end", "var", "true", "false", "ass", "if", "else", "then", "for", "to",
    "do", "while", "read", "write", "int", "float", "bool", "and", "or", "not"]⟩

def separators : FixedTable :=
  ⟨["+", "-", "=", "<", ">", "*", "/", "(", ")", ";", ".", ":", "<=", ">=", "<>", ","]⟩

structure Vocabulary where
  numbers : SymbolTable := {}
  identifiers : SymbolTable := {}
  deriving DecidableEq, Repr

namespace Vocabulary

/-- The entries of a table, in the order of their positions. -/
def entries (v : Vocabulary) : TableKind → List String
  | .keyword => keywords.entries
  | .separator => separators.entries
  | .number => v.numbers.entries
  | .identifier => v.identifiers.entries

def indexOf? (v : Vocabulary) (table : TableKind) (lexeme : String) : Option Nat :=
  (v.entries table).idxOf? lexeme

def resolve? (v : Vocabulary) (table : TableKind) (index : Nat) : Option String :=
  (v.entries table)[index]?

/-- The entry at a position, or the reason why there is none. -/
def resolve (v : Vocabulary) (table : TableKind) (index : Nat) : Except TableError String :=
  match v.resolve? table index with
  | some lexeme => .ok lexeme
  | none => .error (.indexOutOfRange table index)

/-- The position of a lexeme in a fixed table. -/
def fixedIndex (fixed : FixedTable) (table : TableKind) (lexeme : String) :
    Except TableError Nat :=
  match fixed.indexOf? lexeme with
  | some index => .ok index
  | none => .error (.unknownEntry table lexeme)

/-- The position of a lexeme in a table. Numbers and identifiers are taken in when they are new,
the fixed tables refuse what they do not hold. -/
def intern (v : Vocabulary) (table : TableKind) (lexeme : String) :
    Except TableError (Nat × Vocabulary) :=
  match table with
  | .keyword => (fixedIndex keywords .keyword lexeme).map (·, v)
  | .separator => (fixedIndex separators .separator lexeme).map (·, v)
  | .number =>
    let (index, numbers) := v.numbers.intern lexeme
    .ok (index, { v with numbers })
  | .identifier =>
    let (index, identifiers) := v.identifiers.intern lexeme
    .ok (index, { v with identifiers })

end Vocabulary

end LexicalAnalyzer
