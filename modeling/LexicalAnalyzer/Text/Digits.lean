/-!
Digits and the numbers that they write, in bases up to sixteen.
-/
namespace LexicalAnalyzer

def digitValue (c : Char) : Nat :=
  if c.isDigit then c.toNat - '0'.toNat
  else if 'a' ≤ c then c.toNat - 'a'.toNat + 10
  else c.toNat - 'A'.toNat + 10

/-- The number that digits write, the most significant first. -/
def naturalOf (base : Nat) (digits : List Char) : Nat :=
  digits.foldl (fun n c => n * base + digitValue c) 0

end LexicalAnalyzer
