import LexicalAnalyzer.Text.Character
import LexicalAnalyzer.Text.Digits
import LexicalAnalyzer.Text.Unicode

/-!
Patterns: regular expressions that describe values. Nothing is ever matched against a pattern here;
what counts is which texts are patterns at all. A text is read character by character, and it is a
pattern if every step succeeds and no bracket stays open. Curly brackets cannot occur, for a
directive holds its pattern between a pair of them, and boundaries of words are not supported.
-/
namespace LexicalAnalyzer

namespace Pattern

/-- What an escaped character is for. -/
inductive Purpose where
  /-- It stands for itself, next to other items. -/
  | item
  /-- It is a member of a set. -/
  | member
  /-- It ends a range in a set, which begins with a character unless it begins with a class. -/
  | last (first : Option Char)
  deriving DecidableEq, Repr

/-- What stands right before the next character. -/
inductive Place where
  /-- An item that may be repeated, or nothing that may be. -/
  | item (repeatable : Bool)
  /-- The bracket that opens a group. -/
  | group
  /-- That bracket and a question mark. -/
  | groupMark
  /-- The letter that announces the name of a group. -/
  | nameMark
  /-- A part of the name of a group. -/
  | groupName (empty : Bool)
  /-- Flags, the last one first, or a minus among them. -/
  | flags (seen : List Char)
  /-- The bracket that opens a set, perhaps a mark that inverts it, perhaps dashes. -/
  | setStart (inverted empty : Bool)
  /-- A part of a set that begins no range. -/
  | inSet
  /-- A dash behind such a part. -/
  | setDash
  /-- A member of a set that may begin a range, a character or else a class. -/
  | member (first : Option Char)
  /-- Such a member and a dash. -/
  | range (first : Option Char)
  /-- A backslash. -/
  | escape (purpose : Purpose)
  /-- A backslash, a letter, and some digits of the number of a character. -/
  | number (purpose : Purpose) (missing : Nat) (digits : List Char)
  /-- A backslash and the letter that announces a property. -/
  | property (purpose : Purpose)
  deriving DecidableEq, Repr

/-- A place with the groups and the sets that are open there. -/
structure Reading where
  groups : Nat := 0
  sets : Nat := 0
  place : Place := .item false
  deriving DecidableEq, Repr

namespace Reading

def go (r : Reading) (place : Place) : Option Reading := some { r with place }

/-- The reading behind an escape that stands for a character, or else for a class. -/
def escaped (r : Reading) (c : Option Char) : Purpose → Option Reading
  | .item => r.go (.item true)
  | .member => r.go (.member c)
  | .last first =>
    match first, c with
    | some first, some last => if first ≤ last then r.go .inSet else none
    | _, _ => none

/-- The character that a letter behind a backslash stands for. -/
def letter? (c : Char) : Option Char :=
  ([('a', '\x07'), ('f', '\x0c'), ('t', '\t'), ('n', '\n'), ('r', '\r'), ('v', '\x0b')] :
    List (Char × Char)).lookup c

/-- Behind a backslash a mark stands for itself, except for the angle brackets. -/
def isMark (c : Char) : Bool := c.toNat < 128 && !c.isAlphanum && c ≠ '<' && c ≠ '>'

def escapeNext (r : Reading) (purpose : Purpose) (c : Char) : Option Reading :=
  if ['d', 'D', 's', 'S', 'w', 'W'].contains c then r.escaped none purpose
  else if c = 'p' ∨ c = 'P' then r.go (.property purpose)
  else if c = 'x' then r.go (.number purpose 2 [])
  else if c = 'u' then r.go (.number purpose 4 [])
  else if c = 'U' then r.go (.number purpose 8 [])
  else if c = 'A' ∨ c = 'z' then (if purpose = .item then r.go (.item true) else none)
  else if isMark c then r.escaped (some c) purpose
  else (letter? c).bind fun c => r.escaped (some c) purpose

/-- One more digit of the number of a character. -/
def numberNext (r : Reading) (purpose : Purpose) (missing : Nat) (digits : List Char) (c : Char) :
    Option Reading :=
  if !isHexDigit c then none
  else if 1 < missing then r.go (.number purpose (missing - 1) (digits ++ [c]))
  else
    let n := naturalOf 16 (digits ++ [c])
    if n.isValidChar then r.escaped (some (Char.ofNat n)) purpose else none

/-- A character between the items of a pattern. -/
def itemNext (r : Reading) (repeatable : Bool) (c : Char) : Option Reading :=
  match c with
  | '(' => r.go .group
  | ')' => if r.groups = 0 then none else some ⟨r.groups - 1, r.sets, .item true⟩
  | '|' => r.go (.item false)
  | '*' | '+' | '?' => if repeatable then r.go (.item true) else none
  | '\x7b' => none
  | '[' => some ⟨r.groups, 1, .setStart false true⟩
  | '\\' => r.go (.escape .item)
  | _ => r.go (.item true)

def isFlag (c : Char) : Bool := ['i', 'm', 's', 'U', 'u', 'R', 'x'].contains c

/-- Flags end with a colon, and then belong to a group, or with a bracket, and then stand alone.
None occurs twice; a minus occurs once at most and not at the end. -/
def flagsNext (r : Reading) (seen : List Char) (c : Char) : Option Reading :=
  if c = ':' ∨ c = ')' then
    if seen.head? = some '-' ∨ (c = ')' ∧ seen = []) then none
    else some ⟨if c = ':' then r.groups + 1 else r.groups, r.sets, .item false⟩
  else if (isFlag c || c = '-') && !seen.contains c then r.go (.flags (c :: seen))
  else none

/-- A name begins with a letter or a low line and ends with an angle bracket. -/
def nameNext (r : Reading) (empty : Bool) (c : Char) : Option Reading :=
  if empty then
    if (Unicode.isAlphanumeric c && !c.isDigit) || c = '_' then r.go (.groupName false) else none
  else if c = '>' then some ⟨r.groups + 1, r.sets, .item false⟩
  else if Unicode.isAlphanumeric c || ['_', '.', '[', ']'].contains c then
    r.go (.groupName false)
  else none

/-- A character in a set that ends no range. -/
def setNext (r : Reading) (c : Char) : Option Reading :=
  match c with
  | '[' => some ⟨r.groups, r.sets + 1, .setStart false true⟩
  | ']' => some ⟨r.groups, r.sets - 1, if r.sets = 1 then .item true else .inSet⟩
  | '\\' => r.go (.escape .member)
  | '-' => r.go .setDash
  | _ => r.go (.member (some c))

/-- Right behind its opening bracket a set may be inverted, dashes are members, and a closing
bracket is the first member. -/
def setStartNext (r : Reading) (inverted empty : Bool) (c : Char) : Option Reading :=
  if c = '^' ∧ !inverted ∧ empty then r.go (.setStart true true)
  else if c = '-' then r.go (.setStart true false)
  else if c = ']' ∧ empty then r.go .inSet
  else r.setNext c

/-- The reading one character further, none if the text can no longer become a pattern. -/
def next? (r : Reading) (c : Char) : Option Reading :=
  match r.place with
  | .item repeatable => r.itemNext repeatable c
  | .group =>
    if c = '?' then r.go .groupMark
    else itemNext ⟨r.groups + 1, r.sets, .item false⟩ false c
  | .groupMark =>
    if c = '<' then r.go (.groupName true)
    else if c = 'P' then r.go .nameMark
    else r.flagsNext [] c
  | .nameMark => if c = '<' then r.go (.groupName true) else none
  | .groupName empty => r.nameNext empty c
  | .flags seen => r.flagsNext seen c
  | .setStart inverted empty => r.setStartNext inverted empty c
  | .inSet => r.setNext c
  | .setDash => if c = '-' then r.go .inSet else setNext { r with place := .member (some '-') } c
  | .member first => if c = '-' then r.go (.range first) else r.setNext c
  | .range first =>
    match c with
    | ']' => r.setNext c
    | '-' => r.go .inSet
    | '\\' => r.go (.escape (.last first))
    | _ => r.escaped (some c) (.last first)
  | .escape purpose => r.escapeNext purpose c
  | .number purpose missing digits => r.numberNext purpose missing digits c
  | .property purpose =>
    if ['l', 'm', 'n', 'p', 's', 'z', 'c'].contains c.toLower then r.escaped none purpose else none

/-- Whether the text may end. -/
def isComplete (r : Reading) : Bool :=
  r.groups = 0 &&
  match r.place with
  | .item _ => true
  | _ => false

end Reading

end Pattern

/-- Whether a text is a pattern. -/
def isPattern (cs : List Char) : Bool :=
  ((cs.foldlM Pattern.Reading.next? {}).map (·.isComplete)).getD false

end LexicalAnalyzer
