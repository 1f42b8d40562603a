import LexicalAnalyzer.Toml.Definitions
import LexicalAnalyzer.Toml.Scalar

/-!
Reading TOML off the front of a text: layout, strings, keys, values and statements. Brackets may be
nested up to a fixed depth, so a value is read by recursion on the levels that are left.
-/
namespace LexicalAnalyzer

namespace Toml

/-- Takes something off the front of a text. -/
abbrev Reader := StateT (List Char) (Except Error)

namespace Reader

variable {α : Type}

/-- Complains about the character in front. -/
def unexpected : Reader α := do
  match ← get with
  | [] => throw .unexpectedEnd
  | c :: _ => throw (.unexpected c)

def peek? : Reader (Option Char) := do return (← get).head?

def pass (n : Nat) : Reader Unit := modify (·.drop n)

def expect (c : Char) : Reader Unit := do
  if (← peek?) = some c then pass 1 else unexpected

def takeWhile (p : Char → Bool) : Reader (List Char) :=
  modifyGet fun s => (s.takeWhile p, s.dropWhile p)

/-- Repeats a step until it has no more to give. A step that gives something but passes nothing is
the last one. -/
def many (step : Reader (Option α)) (s : List Char) : Except Error (List α × List Char) :=
  match step s with
  | .error e => .error e
  | .ok (none, rest) => .ok ([], rest)
  | .ok (some a, rest) =>
    if rest.length < s.length then (many step rest).map fun (as, last) => (a :: as, last)
    else .ok ([a], rest)
termination_by s.length

/-! ### Layout -/

def isBlank (c : Char) : Bool := c == ' ' || c == '\t'

/-- A character that a comment or a string can hold as it is: no control character but the tab. -/
def isPlain (c : Char) : Bool := c == '\t' || (' ' ≤ c && c ≠ '\x7f')

def skipBlanks : Reader Unit := modify (·.dropWhile isBlank)

/-- What follows blanks, line ends and comments. A carriage return counts with a line feed only. -/
def dropLayout (s : List Char) : List Char :=
  match s with
  | ' ' :: rest | '\t' :: rest | '\n' :: rest => dropLayout rest
  | '\r' :: '\n' :: rest => dropLayout rest
  | '#' :: rest =>
    have : (rest.dropWhile isPlain).length ≤ rest.length :=
      (List.dropWhile_suffix isPlain).length_le
    dropLayout (rest.dropWhile isPlain)
  | _ => s
termination_by s.length

def skipLayout : Reader Unit := modify dropLayout

/-- Passes the end of a line, if there is one in front, and says so. -/
def newline : Reader Bool := do
  match ← get with
  | '\n' :: rest => set rest; return true
  | '\r' :: '\n' :: rest => set rest; return true
  | _ => return false

/-- Passes the rest of a line, which holds nothing but blanks and perhaps a comment. -/
def endLine : Reader Unit := do
  skipBlanks
  if (← peek?) = some '#' then discard <| takeWhile isPlain
  unless ← newline do
    if (← get) ≠ [] then unexpected

/-! ### Strings -/

/-- The character that some hexadecimal digits number. -/
def numbered (count : Nat) : Reader Char := do
  let digits := (← get).take count
  let n := naturalOf 16 digits
  if digits.length = count ∧ digits.all isHexDigit ∧ n.isValidChar then
    pass count
    return Char.ofNat n
  else throw .badEscape

/-- The character that an escape stands for; the backslash is passed already. -/
def escape : Reader Char := do
  let some c ← peek? | unexpected
  pass 1
  match c with
  | 'b' => return '\x08'
  | 't' => return '\t'
  | 'n' => return '\n'
  | 'f' => return '\x0c'
  | 'r' => return '\r'
  | '\x22' => return '\x22'
  | '\\' => return '\\'
  | 'u' => numbered 4
  | 'U' => numbered 8
  | _ => throw .badEscape

/-- One piece of a string on one line, none at its closing quote. -/
def linePiece (quote : Char) (escapes : Bool) : Reader (Option Char) := do
  match ← get with
  | c :: rest =>
    if c = quote then return none
    else if escapes ∧ c = '\\' then
      set rest
      return some (← escape)
    else if isPlain c then
      set rest
      return some c
    else unexpected
  | [] => unexpected

/-- A string on one line; its opening quote is in front. -/
def lineString (quote : Char) (escapes : Bool) : Reader (List Char) := do
  pass 1
  let text ← many (linePiece quote escapes)
  expect quote
  return text

/-- The layout behind a backslash at the end of a line, with the line ends that follow. -/
def lineContinuation? (s : List Char) : Option (List Char) :=
  match s.dropWhile isBlank with
  | '\n' :: rest => some (dropLines rest)
  | '\r' :: '\n' :: rest => some (dropLines rest)
  | _ => none
where
  dropLines : List Char → List Char
    | '\r' :: '\n' :: rest => dropLines rest
    | c :: rest => if isBlank c || c = '\n' then dropLines rest else c :: rest
    | [] => []

/-- One piece of a string over several lines, none at the quotes that close it. Fewer than three
quotes belong to the text, and every line end becomes a line feed. -/
def blockPiece (quote : Char) (escapes : Bool) : Reader (Option (List Char)) := do
  let s ← get
  let quotes := s.takeWhile (· = quote)
  if 3 ≤ quotes.length then return none
  else if quotes ≠ [] then
    pass quotes.length
    return some quotes
  else if ← newline then return some ['\n']
  else
    match s with
    | [] => unexpected
    | c :: rest =>
      if escapes ∧ c = '\\' then
        match lineContinuation? rest with
        | some rest =>
          set rest
          return some []
        | none =>
          set rest
          return some [← escape]
      else if isPlain c then
        set rest
        return some [c]
      else unexpected

/-- A string over several lines; its three opening quotes are in front. A line end right behind
them does not count, and up to two quotes in front of the closing ones belong to the text. -/
def blockString (quote : Char) (escapes : Bool) : Reader (List Char) := do
  pass 3
  discard newline
  let pieces ← many (blockPiece quote escapes)
  let quotes := ((← get).takeWhile (· = quote)).take 5
  pass quotes.length
  return pieces.flatten ++ quotes.drop 3

/-! ### Keys -/

def isBareKeyChar (c : Char) : Bool := c.isAlphanum || c == '_' || c == '-'

/-- One part of a key, with the blanks around it. -/
def keyPart : Reader String := do
  skipBlanks
  let part ← match ← peek? with
    | some '\x22' => lineString '\x22' true
    | some '\x27' => lineString '\x27' false
    | _ =>
      let bare ← takeWhile isBareKeyChar
      if bare.isEmpty then unexpected else pure bare
  skipBlanks
  return .ofList part

/-- How many levels of brackets, and how many parts of a key, are too many. -/
def depthLimit : Nat := 80

/-- A bare, quoted or dotted key. -/
def key : Reader Key := do
  let first ← keyPart
  let others ← many do
    if (← peek?) = some '.' then
      pass 1
      return some (← keyPart)
    else return none
  let parts := first :: others
  if depthLimit ≤ parts.length then throw .tooDeep
  return ⟨parts.dropLast, parts.getLastD first⟩

/-! ### Values -/

def isScalarChar (c : Char) : Bool :=
  c.isAlphanum || ['_', '+', '-', '.', ':'].contains c

/-- A bare word. A date may be followed by one blank and a time of day. -/
def scalar : Reader Value := do
  let first ← takeWhile isScalarChar
  let second ← match ← get with
    | ' ' :: c :: _ =>
      if Scalar.isDate first ∧ c.isDigit then
        pass 1
        let time ← takeWhile isScalarChar
        pure (' ' :: time)
      else pure []
    | _ => pure []
  let written := first ++ second
  if written.isEmpty then unexpected
  match Scalar.value? written with
  | some v => return v
  | none => throw (.badScalar (.ofList written))

/-- A value without brackets. -/
def simpleValue : Reader Value := do
  match ← get with
  | '\x22' :: '\x22' :: '\x22' :: _ => return .string (.ofList (← blockString '\x22' true))
  | '\x22' :: _ => return .string (.ofList (← lineString '\x22' true))
  | '\x27' :: '\x27' :: '\x27' :: _ => return .string (.ofList (← blockString '\x27' false))
  | '\x27' :: _ => return .string (.ofList (← lineString '\x27' false))
  | _ => scalar

/-- A key, an equals sign and a value. -/
def pair (value : Reader Value) : Reader (Key × Value) := do
  let k ← key
  expect '='
  skipBlanks
  let v ← value
  return (k, v)

/-- An array may spread over lines and end in a comma. -/
def array (value : Reader Value) : Reader Value := do
  pass 1
  let items ← many do
    skipLayout
    if (← peek?) = some ']' then return none
    let v ← value
    skipLayout
    match ← peek? with
    | some ',' => pass 1
    | some ']' => pure ()
    | _ => unexpected
    return some v
  expect ']'
  return .array items

/-- An inline table stays on its line and does not end in a comma. -/
def inlineTable (value : Reader Value) : Reader Value := do
  pass 1
  skipBlanks
  if (← peek?) = some '\x7d' then
    pass 1
    return .table []
  let item : Reader (Key × Value) := do
    let p ← pair value
    skipBlanks
    return p
  let first ← item
  let others ← many do
    if (← peek?) = some ',' then
      pass 1
      return some (← item)
    else return none
  expect '\x7d'
  let table ← (first :: others).foldlM (fun d (k, v) => d.assign k v) ({} : Definitions)
  return .table table.values

/-- A value in which so many levels of brackets may be opened. -/
def value : Nat → Reader Value
  | 0 => do
    match ← peek? with
    | some '[' | some '\x7b' => throw .tooDeep
    | _ => simpleValue
  | depth + 1 => do
    match ← peek? with
    | some '[' => array (value depth)
    | some '\x7b' => inlineTable (value depth)
    | _ => simpleValue

/-! ### Statements -/

/-- The next statement with the rest of its line, none at the end of the document. -/
def statement : Reader (Option Statement) := do
  skipLayout
  match ← get with
  | [] => return none
  | '[' :: '[' :: _ =>
    pass 2
    let k ← key
    expect ']'
    expect ']'
    endLine
    return some (.elementHeader k)
  | '[' :: _ =>
    pass 1
    let k ← key
    expect ']'
    endLine
    return some (.tableHeader k)
  | _ =>
    let (k, v) ← pair (value (depthLimit - 1))
    endLine
    return some (.assignment k v)

end Reader

end Toml

end LexicalAnalyzer
