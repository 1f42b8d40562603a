import LexicalAnalyzer.Toml.Value

/-!
What a TOML document has defined so far: which path is a value, a table or an array of tables. The
rules about defining a thing twice are kept here. A table that only lies on the way to another one
may still be given its own header, once. A table written with dotted keys may be extended by
dotted keys only, and it gets no header. A value, an inline table among them, is closed.
-/
namespace LexicalAnalyzer

namespace Toml

/-- A key: the parts before its last dot, and the part behind it. -/
structure Key where
  way : List String
  name : String
  deriving DecidableEq, Repr

/-- What a line of a document says. -/
inductive Statement where
  | assignment (key : Key) (v : Value)
  /-- A table's own line, `[key]`. -/
  | tableHeader (key : Key)
  /-- The line of a further element of an array of tables, `[[key]]`. -/
  | elementHeader (key : Key)
  deriving Repr

/-- One step of a path: a key in a table, or a place in an array of tables. -/
inductive Step where
  | key (name : String)
  | element (index : Nat)
  deriving DecidableEq, Repr

abbrev Path := List Step

/-- How a table came to be. -/
inductive Origin where
  /-- It has a header of its own. -/
  | header
  /-- It lies on the way to another header. -/
  | way
  /-- It lies on the way of a dotted key. -/
  | dotted
  deriving DecidableEq, Repr

inductive Definition where
  | value (v : Value)
  | table (origin : Origin)
  /-- An array of tables with so many elements. -/
  | tables (count : Nat)
  deriving Repr

structure Definitions where
  /-- What is defined, the latest in front. -/
  entries : List (Path × Definition) := []
  /-- The table that keys go into. -/
  current : Path := []
  deriving Repr

namespace Definitions

def find? (d : Definitions) (p : Path) : Option Definition := d.entries.lookup p

def put (d : Definitions) (p : Path) (x : Definition) : Definitions :=
  { d with entries := (p, x) :: d.entries.filter (·.1 ≠ p) }

/-- Changes what a path is defined to be and leaves it where it stands. -/
def replace (d : Definitions) (p : Path) (x : Definition) : Definitions :=
  { d with entries := d.entries.map fun entry => if entry.1 = p then (p, x) else entry }

def isDotted (d : Definitions) (p : Path) : Bool :=
  match d.find? p with
  | some (.table .dotted) => true
  | _ => false

/-- Goes from a table into the one that keys lead to, making tables that are missing. An array of
tables is entered at its last element. -/
def descend (dotted : Bool) :
    Definitions → Path → List String → Except Error (Definitions × Path)
  | d, p, [] => .ok (d, p)
  | d, p, name :: rest =>
    let q := p ++ [.key name]
    match d.find? q with
    | none => descend dotted (d.put q (.table (if dotted then .dotted else .way))) q rest
    | some (.value _) => .error (.notATable name)
    | some (.tables count) => descend dotted d (q ++ [.element (count - 1)]) rest
    | some (.table origin) =>
      if dotted ∧ origin = .header then .error (.duplicateKey name) else descend dotted d q rest

/-- Gives a key in the current table a value. -/
def assign (d : Definitions) (key : Key) (v : Value) : Except Error Definitions := do
  let (d, p) ← descend true d d.current key.way
  if d.isDotted p = key.way.isEmpty then throw (.duplicateKey key.name)
  let q := p ++ [.key key.name]
  if (d.find? q).isSome then throw (.duplicateKey key.name)
  return d.put q (.value v)

/-- Opens the table of a header. -/
def openTable (d : Definitions) (key : Key) : Except Error Definitions := do
  let (d, p) ← descend false d [] key.way
  let q := p ++ [.key key.name]
  match d.find? q with
  | none | some (.table .way) => return { d.put q (.table .header) with current := q }
  | some _ => throw (.duplicateKey key.name)

/-- Opens a new element of an array of tables. -/
def openElement (d : Definitions) (key : Key) : Except Error Definitions := do
  let (d, p) ← descend false d [] key.way
  let q := p ++ [.key key.name]
  match d.find? q with
  | none => return { d.put q (.tables 1) with current := q ++ [.element 0] }
  | some (.tables count) =>
    return { d.replace q (.tables (count + 1)) with current := q ++ [.element count] }
  | some _ => throw (.duplicateKey key.name)

/-- Carries out a statement. -/
def apply (d : Definitions) : Statement → Except Error Definitions
  | .assignment key v => d.assign key v
  | .tableHeader key => d.openTable key
  | .elementHeader key => d.openElement key

/-- What a key outside of all tables is defined to be. -/
def topLevel? (d : Definitions) (name : String) : Option Definition := d.find? [.key name]

/-- The key to which a path outside of all tables leads. -/
def name? : Path → Option String
  | [.key name] => some name
  | _ => none

/-- The keys outside of all tables with what they are defined to be, in the order of their
definition. -/
def topLevel (d : Definitions) : List (String × Definition) :=
  d.entries.reverse.filterMap fun (p, x) => (name? p).map (·, x)

theorem name?_eq_some_iff {p : Path} {name : String} : name? p = some name ↔ p = [.key name] := by
  unfold name?
  split
  · simp
  · next hp => simpa using fun h => hp name h

theorem topLevel_cons (p : Path) (x : Definition) (entries : List (Path × Definition))
    (current : Path) : topLevel ⟨(p, x) :: entries, current⟩ =
      topLevel ⟨entries, current⟩ ++ ((name? p).map (·, x)).toList := by
  simp only [topLevel, List.reverse_cons, List.filterMap_append]
  cases h : name? p <;> simp [h]

theorem topLevel?_cons (p : Path) (x : Definition) (entries : List (Path × Definition))
    (current : Path) (name : String) : topLevel? ⟨(p, x) :: entries, current⟩ name =
      if name? p = some name then some x else topLevel? ⟨entries, current⟩ name := by
  simp only [topLevel?, find?, List.lookup_cons, name?_eq_some_iff]
  by_cases h : p = [.key name]
  · simp [h]
  · rw [if_neg h, beq_false_of_ne (Ne.symm h)]

/-- The keys of a path, places in arrays left out. -/
def keysOf (p : Path) : List String :=
  p.filterMap fun
    | .key name => some name
    | .element _ => none

/-- The values that are defined, under their dotted keys, in the order of their definition. -/
def values (d : Definitions) : List (List String × Value) :=
  d.entries.reverse.filterMap fun
    | (p, .value v) => some (keysOf p, v)
    | _ => none

end Definitions

end Toml

end LexicalAnalyzer
