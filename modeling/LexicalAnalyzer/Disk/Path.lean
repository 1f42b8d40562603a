/-!
Paths as they are written: names between slashes, perhaps a slash in front, perhaps one behind.
Repeated slashes count as one. Written paths are put together by a slash between them.
-/
namespace LexicalAnalyzer

structure Path where
  /-- A slash in front: the path starts at the root. -/
  absolute : Bool
  names : List String
  /-- A slash behind: the path can only mean a directory. -/
  trailing : Bool
  deriving DecidableEq, Repr

namespace Path

/-- The names between the slashes of a text, behind the part of a name that is already read. -/
def namesFrom (read : List Char) : List Char → List String
  | [] => if read.isEmpty then [] else [.ofList read.reverse]
  | c :: rest =>
    if c = '/' then
      if read.isEmpty then namesFrom [] rest else .ofList read.reverse :: namesFrom [] rest
    else namesFrom (c :: read) rest

/-- The path that a text denotes; the empty text denotes none. -/
def ofString? (text : String) : Option Path :=
  let cs := text.toList
  if cs.isEmpty then none
  else some ⟨cs.head? = some '/', namesFrom [] cs, cs.getLast? = some '/'⟩

/-- A path as it is written, seen from a directory. One with a slash in front stands for itself; a
slash goes between the two unless the directory brings one, or is the empty text. -/
def join (directory path : String) : String :=
  let slashed : Bool := directory.toList.getLast?.all (· = '/')
  if path.toList.head? = some '/' then path
  else if slashed then directory ++ path
  else directory ++ "/" ++ path

example : join "/home" "mlc" = "/home/mlc" ∧ join "/home/" "mlc" = "/home/mlc" ∧
    join "/home" "/mlc" = "/mlc" := by
  decide +kernel

end Path

end LexicalAnalyzer
