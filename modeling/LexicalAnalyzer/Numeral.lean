import LexicalAnalyzer.Text.Character
import LexicalAnalyzer.Text.Utf8

/-!
The five formats of numerals, each a regular language:

* binary `[01]+[Bb]`
* octal `[0-7]+[Oo]`
* decimal `[0-9]+[Dd]?`
* hexadecimal `[0-9A-Fa-f]+[Hh]` with a letter among the digits
* float `\.[0-9]+X?` or `[0-9]+(\.[0-9]+)?X?`, where the exponent `X` is `[Ee][+-]?[0-9]+`

A numeral is read greedily first and held against the formats afterwards, so a malformed one is
still one token. A format is tested on the bytes of a text, from which parts are cut off in front
and behind. A cut outside its text would leave the test without an answer.
-/
namespace LexicalAnalyzer

inductive NumeralFormat where
  | binary | octal | decimal | hexadecimal | float
  deriving DecidableEq, Repr

namespace NumeralFormat

/-- All formats, in the order in which they are tried. -/
def all : List NumeralFormat := [.binary, .octal, .decimal, .hexadecimal, .float]

def name : NumeralFormat → String
  | .binary => "binary"
  | .octal => "octal"
  | .decimal => "decimal"
  | .hexadecimal => "hexadecimal"
  | .float => "float"

/-- What is left of a text from an offset on; nothing when the offset lies behind the end. -/
def cutFront? (offset : Nat) (cs : List Char) : Option (List Char) :=
  if offset ≤ cs.length then some (cs.drop offset) else none

/-- What is left of a text without its last character, if it has one. -/
def cutLast? (cs : List Char) : Option (List Char) :=
  if cs.isEmpty then none else some cs.dropLast

/-- One digit or more and nothing else. -/
def isDigits (isBaseDigit : Char → Bool) (cs : List Char) : Bool :=
  !cs.isEmpty && cs.all isBaseDigit

/-- Digits of a base, then one of the base's suffixes. -/
def isSuffixed (suffixes : List Char) (isBaseDigit : Char → Bool) (cs : List Char) : Bool :=
  match cs.getLast? with
  | some last => suffixes.contains last && isDigits isBaseDigit cs.dropLast
  | none => false

def isDecimal? (cs : List Char) : Option Bool := do
  let digits ← match cs.getLast? with
    | some 'D' | some 'd' => cutLast? cs
    | _ => some cs
  return isDigits Char.isDigit digits

def isHexadecimal? (cs : List Char) : Option Bool :=
  if isSuffixed ['H', 'h'] isHexDigit cs then (cutLast? cs).map (·.any isHexLetter)
  else some false

def isSign (c : Char) : Bool := c == '+' || c == '-'

def isExponentMark (c : Char) : Bool := c == 'E' || c == 'e'

def isExponent? : List Char → Option Bool
  | [] => some false
  | mark :: rest =>
    if isExponentMark mark then
      (if rest.head?.any isSign then cutFront? 1 rest else some rest).map (isDigits Char.isDigit)
    else some false

/-- Digits, one at least, and behind all of them what passes a further test. -/
def startsDigits? (test : List Char → Option Bool) (cs : List Char) : Option Bool :=
  let count := (cs.takeWhile Char.isDigit).length
  if count = 0 then some false else (cutFront? count cs).bind test

/-- An exponent or nothing. -/
def endsFloat? (cs : List Char) : Option Bool :=
  if cs.isEmpty then some true else isExponent? cs

/-- A fraction, if there is a dot, and the end of a float. -/
def hasFraction? : List Char → Option Bool
  | '.' :: rest => startsDigits? endsFloat? rest
  | cs => endsFloat? cs

def isFloat? : List Char → Option Bool
  | '.' :: rest => startsDigits? endsFloat? rest
  | cs => startsDigits? hasFraction? cs

/-- Whether a text is a numeral of the format, to be asked of its bytes. -/
def test? : NumeralFormat → List Char → Option Bool
  | .binary => fun cs => some (isSuffixed ['B', 'b'] isBinaryDigit cs)
  | .octal => fun cs => some (isSuffixed ['O', 'o'] isOctalDigit cs)
  | .decimal => isDecimal?
  | .hexadecimal => isHexadecimal?
  | .float => isFloat?

/-- Whether the format admits exactly these characters. -/
def admits (f : NumeralFormat) (cs : List Char) : Bool :=
  (f.test? (Utf8.octets cs)).getD false

/-- The first format that admits the characters. -/
def of? (cs : List Char) : Option NumeralFormat := all.find? (·.admits cs)

end NumeralFormat

/-- A numeral that some format admits. -/
def isValidNumeral (cs : List Char) : Bool := (NumeralFormat.of? cs).isSome

end LexicalAnalyzer
