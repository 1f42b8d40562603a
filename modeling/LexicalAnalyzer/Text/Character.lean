/-!
The classes of characters that the scanner tells apart. All classes are ASCII: a letter or digit of
any other alphabet belongs to no token. The class of a token's first character decides how the
token is read.
-/
namespace LexicalAnalyzer

inductive CharClass where
  | letter | digit | separator | invalid
  deriving DecidableEq, Repr

/-- A character that can start a separator. -/
def isSeparatorChar (c : Char) : Bool :=
  ['+', '-', '=', '<', '>', '/', '*', ';', '.', '(', ')', ':', ','].contains c

def isHexLetter (c : Char) : Bool :=
  ('A' ≤ c && c ≤ 'F') || ('a' ≤ c && c ≤ 'f')

def isHexDigit (c : Char) : Bool := c.isDigit || isHexLetter c

def isOctalDigit (c : Char) : Bool := '0' ≤ c && c ≤ '7'

def isBinaryDigit (c : Char) : Bool := c == '0' || c == '1'

/-- Digits, hexadecimal letters and dots make up the body of a numeral. -/
def isNumeralChar (c : Char) : Bool :=
  c.isDigit || isHexLetter c || c == '.'

def CharClass.of (c : Char) : CharClass :=
  if c.isDigit then .digit
  else if c.isAlpha then .letter
  else if isSeparatorChar c then .separator
  else .invalid

theorem isDigit_of_class {c : Char} (h : CharClass.of c = .digit) : c.isDigit = true := by
  grind [CharClass.of]

end LexicalAnalyzer
