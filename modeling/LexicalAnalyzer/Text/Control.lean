/-!
Control characters on their way to a terminal. A log message shows the dangerous ones by their
numbers, so that no source text can steer the terminal; plain output leaves them out, together with
the sequences that they start.
-/
namespace LexicalAnalyzer

namespace Control

/-- The written form of a character that may steer a terminal, none for all others. -/
def written? (c : Char) : Option String :=
  match c with
  | '\x07' => some "\\x07"
  | '\x08' => some "\\x08"
  | '\x0c' => some "\\x0c"
  | '\x1b' => some "\\x1b"
  | '\x7f' => some "\\x7f"
  | _ =>
    if 0x80 ≤ c.toNat ∧ c.toNat ≤ 0x9f then
      some ("\\u\x7b" ++ String.ofList (Nat.toDigits 16 c.toNat) ++ "\x7d")
    else none

/-- A text with the characters that may steer a terminal in their written form. -/
def escape (text : String) : String :=
  String.join (text.toList.map fun c => (written? c).getD c.toString)

/-- Where a reader of terminal output stands: in text, or in a sequence that is not shown. -/
inductive State where
  | text
  /-- Behind an escape character. -/
  | escape
  /-- Behind an escape character and marks that belong to it. -/
  | marks
  /-- In a sequence of parameters, which a letter ends. -/
  | parameters
  /-- In the text of a system command, which a bell ends. -/
  | command
  /-- In any other text that is not shown, which only another sequence ends. -/
  | hidden
  deriving DecidableEq, Repr

/-- Blanks and line ends are shown although they are control characters. -/
def isLayout (c : Char) : Bool := c == '\t' || c == '\n' || c == '\x0c' || c == '\r'

/-- The state behind a character, and whether the character is shown. -/
def State.next (s : State) (c : Char) : State × Bool :=
  if c = '\x1b' then (.escape, false)
  else if c = '\x18' ∨ c = '\x1a' then (.text, false)
  else
    match s with
    | .text => (.text, isLayout c || (' ' ≤ c && c ≠ '\x7f'))
    | .command => (if c = '\x07' then .text else .command, false)
    | .hidden => (.hidden, false)
    | .escape =>
      if isLayout c then (.text, true)
      else if ' ' ≤ c ∧ c ≤ '/' then (.marks, false)
      else if c = '[' then (.parameters, false)
      else if c = ']' then (.command, false)
      else if ['P', 'X', '^', '_'].contains c then (.hidden, false)
      else (if '0' ≤ c ∧ c ≤ '~' then .text else .escape, false)
    | .marks =>
      if isLayout c then (.text, true) else (if '0' ≤ c ∧ c ≤ '~' then .text else .marks, false)
    | .parameters =>
      if isLayout c then (.text, true)
      else (if '@' ≤ c ∧ c ≤ '~' then .text else .parameters, false)

/-- The characters that are shown, from a state on. -/
def shownFrom : State → List Char → List Char
  | _, [] => []
  | s, c :: rest =>
    match s.next c with
    | (s, true) => c :: shownFrom s rest
    | (s, false) => shownFrom s rest

/-- A text without control characters and control sequences. -/
def plain (text : String) : String := .ofList (shownFrom .text text.toList)

end Control

end LexicalAnalyzer
