import LexicalAnalyzer.Scan.Lexer

/-!
Comments seen without tokens. A plain scan from left to right with two modes finds where the
comments of a line open and close: in normal mode `/*` opens one, in a comment the first `*/` that
lies wholly behind the opening closes it.
-/
namespace LexicalAnalyzer

/-- An edge of a comment: the column in which it opens, or the first column behind it. -/
inductive CommentEdge where
  | opened (column : Nat)
  | closed (column : Nat)
  deriving DecidableEq, Repr

/-- The comment edges of a text that starts in the given column, and the mode behind it. -/
def commentEdges : Mode → Nat → List Char → List CommentEdge × Mode
  | mode, _, [] => ([], mode)
  | .normal, column, '/' :: '*' :: rest =>
    let (edges, mode) := commentEdges .comment (column + 2) rest
    (.opened column :: edges, mode)
  | .comment, column, '*' :: '/' :: rest =>
    let (edges, mode) := commentEdges .normal (column + 2) rest
    (.closed (column + 2) :: edges, mode)
  | mode, column, _ :: rest => commentEdges mode (column + 1) rest

end LexicalAnalyzer
