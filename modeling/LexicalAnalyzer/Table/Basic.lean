/-!
The tables that token references point into. Two are fixed lists, two grow while a text is read.
An index is a position in its table, and a position once given never changes its entry.
-/
namespace LexicalAnalyzer

inductive TableKind where
  | keyword | separator | number | identifier
  deriving DecidableEq, Repr

namespace TableKind

/-- All tables in the order of their codes. -/
def all : List TableKind := [.keyword, .separator, .number, .identifier]

/-- The number that stands for the table in a written reference. -/
def code : TableKind → Nat
  | .keyword => 1
  | .separator => 2
  | .number => 3
  | .identifier => 4

def name : TableKind → String
  | .keyword => "keyword"
  | .separator => "separator"
  | .number => "number"
  | .identifier => "identifier"

end TableKind

inductive TableError where
  /-- A fixed table has no such entry. -/
  | unknownEntry (table : TableKind) (lexeme : String)
  /-- A table has no entry at this position. -/
  | indexOutOfRange (table : TableKind) (index : Nat)
  deriving DecidableEq, Repr

def TableError.message : TableError → String
  | .unknownEntry table lexeme => s!"'{lexeme}' is not an entry of the {table.name} table"
  | .indexOutOfRange table index => s!"index {index} is out of range for the {table.name} table"

/-- A list set up once. Entries may repeat, and a look-up finds the first. -/
structure FixedTable where
  entries : List String
  deriving DecidableEq, Repr

namespace FixedTable

def indexOf? (t : FixedTable) (lexeme : String) : Option Nat := t.entries.idxOf? lexeme

def get? (t : FixedTable) (index : Nat) : Option String := t.entries[index]?

def size (t : FixedTable) : Nat := t.entries.length

end FixedTable

/-- A table that grows at its end and holds every entry once. -/
structure SymbolTable where
  entries : List String := []
  deriving DecidableEq, Repr

namespace SymbolTable

def indexOf? (t : SymbolTable) (lexeme : String) : Option Nat := t.entries.idxOf? lexeme

def get? (t : SymbolTable) (index : Nat) : Option String := t.entries[index]?

def size (t : SymbolTable) : Nat := t.entries.length

/-- The position of a lexeme, which is appended when it is new. -/
def intern (t : SymbolTable) (lexeme : String) : Nat × SymbolTable :=
  match t.indexOf? lexeme with
  | some index => (index, t)
  | none => (t.size, ⟨t.entries ++ [lexeme]⟩)

theorem entries_intern (t : SymbolTable) (lexeme : String) :
    (t.intern lexeme).2.entries =
      if lexeme ∈ t.entries then t.entries else t.entries ++ [lexeme] := by
  unfold intern indexOf?
  split
  · rename_i index h
    rw [if_pos (by simpa using List.isSome_idxOf?.mp (by simp [h]))]
  · rename_i h
    rw [if_neg (List.idxOf?_eq_none_iff.mp h)]

/-- The position that is given for a lexeme leads back to it. -/
theorem get?_intern (t : SymbolTable) (lexeme : String) :
    (t.intern lexeme).2.get? (t.intern lexeme).1 = some lexeme := by
  unfold intern indexOf? get?
  split
  · rename_i index h
    obtain ⟨hlt, heq, _⟩ := List.idxOf?_eq_some_iff.mp h
    rw [List.getElem?_eq_getElem hlt, heq]
  · simp [size]

/-- Whether two tables hold the same entries, in whatever order. -/
def sameEntries (t u : SymbolTable) : Bool :=
  t.size == u.size && t.entries.all (u.entries.contains ·)

end SymbolTable

end LexicalAnalyzer
