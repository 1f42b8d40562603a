import LexicalAnalyzer.Disk.Access
import LexicalAnalyzer.Disk.Path

/-!
A file system as a value: what lies at each location, and the directory in which relative paths
start. A path is followed name by name, and every name but the last has to lead into a directory
that exists. Writing and removing change the entry of one location and nothing else.
-/
namespace LexicalAnalyzer

namespace Disk

/-- A location is the list of names from it up to the root, nearest first. -/
abbrev Location := List String

inductive Entry where
  | directory
  | file (content : Bytes)
  deriving DecidableEq, Repr

/-- Entries at locations; of several for one location the first counts. -/
structure Tree where
  entries : List (Location × Entry) := []
  /-- Where relative paths start. -/
  here : Location := []
  deriving DecidableEq, Repr

namespace Tree

/-- What lies at a location. The root is always there. -/
def find? (t : Tree) (l : Location) : Option Entry :=
  if l = [] then some .directory else t.entries.lookup l

def put (t : Tree) (l : Location) (e : Entry) : Tree :=
  { t with entries := (l, e) :: t.entries.filter (·.1 ≠ l) }

def drop (t : Tree) (l : Location) : Tree :=
  { t with entries := t.entries.filter (·.1 ≠ l) }

theorem find?_put_self (t : Tree) {l : Location} (h : l ≠ []) (e : Entry) :
    (t.put l e).find? l = some e := by
  simp [find?, put, h]

theorem lookup_filter_of_ne {k l : Location} (h : k ≠ l) (entries : List (Location × Entry)) :
    (entries.filter (·.1 ≠ l)).lookup k = entries.lookup k := by
  induction entries with
  | nil => rfl
  | cons x rest ih =>
    obtain ⟨l', e⟩ := x
    by_cases hl : l' = l
    · have hk : (k == l) = false := by simpa using h
      rw [hl, List.lookup_cons, hk, ← ih, List.filter_cons_of_neg (by simp)]
    · simp only [List.filter_cons, hl, ne_eq, not_false_eq_true, decide_true, if_true,
        List.lookup_cons, ih]

theorem find?_put_of_ne (t : Tree) {k l : Location} (h : k ≠ l) (e : Entry) :
    (t.put l e).find? k = t.find? k := by
  have hk : (k == l) = false := by simpa using h
  simp only [find?, put, List.lookup_cons, hk, lookup_filter_of_ne h]

theorem find?_drop_of_ne (t : Tree) {k l : Location} (h : k ≠ l) :
    (t.drop l).find? k = t.find? k := by
  simp only [find?, drop, lookup_filter_of_ne h]

/-- One name further. -/
def step (l : Location) (name : String) : Location :=
  if name = "." then l else if name = ".." then l.tail else name :: l

/-- The greatest number of bytes in a name. -/
def maxNameSize : Nat := 255

/-- The greatest number of bytes in a path. -/
def maxPathSize : Nat := 4095

/-- Follows names from a location; only a directory can be left by a name. -/
def follow (t : Tree) (l : Location) : List String → Except FileError Location
  | [] => .ok l
  | name :: rest =>
    match t.find? l with
    | some .directory =>
      if maxNameSize < name.utf8ByteSize then .error .nameTooLong
      else t.follow (step l name) rest
    | some (.file _) => .error .notADirectory
    | none => .error .notFound

/-- The location that a path leads to, whether or not anything lies there, and whether it has to
be a directory. -/
def locate (t : Tree) (path : String) : Except FileError (Location × Bool) :=
  match Path.ofString? path with
  | none => .error .notFound
  | some p =>
    if path.toList.contains '\x00' then .error .badName
    else if maxPathSize < path.utf8ByteSize then .error .nameTooLong
    else (t.follow (if p.absolute then [] else t.here) p.names).map (·, p.trailing)

def pathExists (t : Tree) (path : String) : Bool :=
  match t.locate path with
  | .error _ => false
  | .ok (l, mustBeDirectory) =>
    match t.find? l with
    | some .directory => true
    | some (.file _) => !mustBeDirectory
    | none => false

def read (t : Tree) (path : String) : Except FileError Bytes := do
  let (l, mustBeDirectory) ← t.locate path
  match t.find? l with
  | some .directory => throw .isADirectory
  | some (.file content) => if mustBeDirectory then throw .notADirectory else return content
  | none => throw .notFound

/-- No file can be made under a path that has to be a directory. -/
def write (t : Tree) (path : String) (content : Bytes) : Except FileError Tree := do
  let (l, mustBeDirectory) ← t.locate path
  if mustBeDirectory || t.find? l = some .directory then throw .isADirectory
  return t.put l (.file content)

def remove (t : Tree) (path : String) : Except FileError Tree := do
  let (l, mustBeDirectory) ← t.locate path
  match t.find? l with
  | some .directory => throw .isADirectory
  | some (.file _) => if mustBeDirectory then throw .notADirectory else return t.drop l
  | none => throw .notFound

/-- Makes a directory and those above it, where nothing lies yet. -/
def makeDirectories (t : Tree) : Location → Tree
  | [] => t
  | name :: above =>
    let t := t.makeDirectories above
    if (t.find? (name :: above)).isNone then t.put (name :: above) .directory else t

/-- Puts a file into a directory that is made if need be. -/
def place (t : Tree) (l : Location) (content : Bytes) : Tree :=
  (t.makeDirectories l.tail).put l (.file content)

instance : FileStore Tree where
  pathExists := pathExists
  read := read
  write := write
  remove := remove

end Tree

end Disk

end LexicalAnalyzer
