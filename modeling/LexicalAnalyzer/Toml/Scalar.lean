import LexicalAnalyzer.Text.Character
import LexicalAnalyzer.Text.Digits
import LexicalAnalyzer.Toml.Value

/-!
Bare scalars of TOML: booleans, integers, floats and points in time. Each reader below decides on
a whole word. Underscores may stand between two digits of a number; integers have 64 bits with a
sign; a float must not be so large that it has no finite value; a point in time must exist.
-/
namespace LexicalAnalyzer

namespace Toml

namespace Scalar

/-- The digits of a word, freed of the underscores that stand between two of them. -/
def ungroup? (isBaseDigit : Char → Bool) : List Char → Option (List Char)
  | [] => none
  | [c] => if isBaseDigit c then some [c] else none
  | c :: '_' :: rest =>
    if isBaseDigit c then (ungroup? isBaseDigit rest).map (c :: ·) else none
  | c :: rest => if isBaseDigit c then (ungroup? isBaseDigit rest).map (c :: ·) else none

/-- Decimal digits without a superfluous zero in front. -/
def plainDigits? (cs : List Char) : Option (List Char) :=
  match ungroup? Char.isDigit cs with
  | some ('0' :: _ :: _) => none
  | digits => digits

/-- Whether there is a minus, and what follows the sign. -/
def splitSign : List Char → Bool × List Char
  | '-' :: rest => (true, rest)
  | '+' :: rest => (false, rest)
  | cs => (false, cs)

def integerIn64? (i : Int) : Option Int :=
  if Int64.minValue.toInt ≤ i ∧ i ≤ Int64.maxValue.toInt then some i else none

def unsigned? (base : Nat) (isBaseDigit : Char → Bool) (cs : List Char) : Option Int :=
  (ungroup? isBaseDigit cs).bind fun digits => integerIn64? (naturalOf base digits)

/-- An integer: decimal with or without a sign, or behind the mark of another base. -/
def integer? (cs : List Char) : Option Int :=
  match cs with
  | '0' :: 'x' :: rest => unsigned? 16 isHexDigit rest
  | '0' :: 'o' :: rest => unsigned? 8 isOctalDigit rest
  | '0' :: 'b' :: rest => unsigned? 2 isBinaryDigit rest
  | _ =>
    let (negative, rest) := splitSign cs
    (plainDigits? rest).bind fun ds =>
      let n : Int := naturalOf 10 ds
      integerIn64? (if negative then -n else n)

def isGrouped (c : Char) : Bool := c.isDigit || c == '_'

/-- The least number that rounds to no finite double: halfway from the greatest one to 2^1024. -/
def overflowBound : Nat := Nat.pow 2 1024 - Nat.pow 2 970

/-- Whether `digits` times ten to the `exponent` has no finite double. Exponents far from the bound
are settled by the number of digits. -/
def overflows (digits : List Char) (exponent : Int) : Bool :=
  let significand := naturalOf 10 digits
  let places : Int := (toString significand).length + exponent
  if significand = 0 ∨ places < 300 then false
  else if places > 320 then true
  else if 0 ≤ exponent then overflowBound ≤ significand * Nat.pow 10 exponent.toNat
  else overflowBound * Nat.pow 10 (-exponent).toNat ≤ significand

/-- The digits of a fraction, if a dot leads it, and what follows. -/
def splitFraction? : List Char → Option (List Char × List Char)
  | '.' :: rest =>
    (ungroup? Char.isDigit (rest.takeWhile isGrouped)).map (·, rest.dropWhile isGrouped)
  | cs => some ([], cs)

/-- The value of an exponent that takes up the whole word; the empty word is the exponent zero. -/
def exponent? : List Char → Option Int
  | [] => some 0
  | mark :: rest =>
    if mark = 'e' ∨ mark = 'E' then
      let (negative, digits) := splitSign rest
      (ungroup? Char.isDigit digits).map fun ds =>
        let n : Int := naturalOf 10 ds
        if negative then -n else n
    else none

/-- A float has a fraction or an exponent, or is a special word. -/
def isFloat (cs : List Char) : Bool :=
  let (negative, unsigned) := splitSign cs
  unsigned = ['i', 'n', 'f'] || unsigned = ['n', 'a', 'n'] ||
  let tail := unsigned.dropWhile isGrouped
  let parsed := do
    let whole ← plainDigits? (unsigned.takeWhile isGrouped)
    let (fraction, rest) ← splitFraction? tail
    let exponent ← exponent? rest
    return negative || !overflows (whole ++ fraction) (exponent - fraction.length)
  !tail.isEmpty && parsed.getD false

def isLeapYear (year : Nat) : Bool := year % 4 = 0 && (year % 100 ≠ 0 || year % 400 = 0)

def daysInMonth (year month : Nat) : Nat :=
  if month = 2 then (if isLeapYear year then 29 else 28)
  else if [4, 6, 9, 11].contains month then 30
  else 31

/-- The number that two digits write, and what follows. -/
def twoDigits? : List Char → Option (Nat × List Char)
  | a :: b :: rest => if a.isDigit && b.isDigit then some (naturalOf 10 [a, b], rest) else none
  | _ => none

/-- What follows a date at the front. -/
def afterDate? (cs : List Char) : Option (List Char) := do
  let (century, rest) ← twoDigits? cs
  let (decade, rest) ← twoDigits? rest
  let '-' :: rest := rest | none
  let (month, rest) ← twoDigits? rest
  let '-' :: rest := rest | none
  let (day, rest) ← twoDigits? rest
  let year := century * 100 + decade
  if 1 ≤ month ∧ month ≤ 12 ∧ 1 ≤ day ∧ day ≤ daysInMonth year month then some rest else none

/-- What follows a fraction of a second, if there is one. -/
def afterSecondFraction? : List Char → Option (List Char)
  | '.' :: c :: rest => if c.isDigit then some (rest.dropWhile Char.isDigit) else none
  | '.' :: [] => none
  | cs => some cs

/-- What follows a time of day at the front. -/
def afterTime? (cs : List Char) : Option (List Char) := do
  let (hour, rest) ← twoDigits? cs
  let ':' :: rest := rest | none
  let (minute, rest) ← twoDigits? rest
  let ':' :: rest := rest | none
  let (second, rest) ← twoDigits? rest
  if hour < 24 ∧ minute < 60 ∧ second ≤ 60 then afterSecondFraction? rest else none

/-- An offset from universal time that takes up the whole word; it may be missing. -/
def isOffset : List Char → Bool
  | [] => true
  | ['Z'] | ['z'] => true
  | sign :: a :: b :: ':' :: rest =>
    (sign = '+' || sign = '-') &&
      match twoDigits? [a, b], twoDigits? rest with
      | some (hour, _), some (minute, []) => hour < 24 && minute < 60
      | _, _ => false
  | _ => false

def isDate (cs : List Char) : Bool := afterDate? cs = some []

/-- A date, a time of day, or both with a mark between them and perhaps an offset. -/
def isDateTime (cs : List Char) : Bool :=
  afterTime? cs = some [] ||
  match afterDate? cs with
  | some [] => true
  | some (mark :: rest) =>
    (mark = 'T' || mark = 't' || mark = ' ') &&
      match afterTime? rest with
      | some offset => isOffset offset
      | none => false
  | none => false

/-- The value of a bare word. -/
def value? (cs : List Char) : Option Value :=
  if cs = ['t', 'r', 'u', 'e'] then some (.boolean true)
  else if cs = ['f', 'a', 'l', 's', 'e'] then some (.boolean false)
  else if isDateTime cs then some (.dateTime (.ofList cs))
  else if isFloat cs then some (.float (.ofList cs))
  else (integer? cs).map .integer

end Scalar

end Toml

end LexicalAnalyzer
