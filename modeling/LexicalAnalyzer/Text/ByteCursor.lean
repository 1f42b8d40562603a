import LexicalAnalyzer.Text.Utf8

/-!
A cursor into the bytes of a text. It knows the place by a byte position and by the column, and
decodes what it needs to see. An operation has no result where it would cut a character into parts
or where a counter would leave its range; on the bytes of a text that never happens.
-/
namespace LexicalAnalyzer

namespace Utf8

/-- A byte that no character goes on with. -/
def startsCharacter (b : UInt8) : Bool := b < 0x80 || 0xC0 ≤ b

/-- A place at which well-formed bytes may be cut into two parts. -/
def isBoundary (bytes : Bytes) (i : Nat) : Bool :=
  i == 0 || i == bytes.length || bytes[i]?.any startsCharacter

/-- The characters of the bytes from `i` up to `j`. There are none when `i` lies behind `j` or one
of the two is no boundary. -/
def slice? (bytes : Bytes) (i j : Nat) : Option (List Char) :=
  if i ≤ j ∧ isBoundary bytes i ∧ isBoundary bytes j then decode? ((bytes.take j).drop i) else none

end Utf8

structure ByteCursor where
  source : Bytes
  position : Nat
  column : UInt32
  deriving DecidableEq, Repr

namespace ByteCursor

/-- The cursor in front of a text. -/
def ofChars (text : List Char) : ByteCursor := ⟨Utf8.encode (.ofList text), 0, 1⟩

variable (c : ByteCursor)

def atEnd : Bool := c.source.length ≤ c.position

/-- The characters ahead. -/
def ahead? : Option (List Char) := Utf8.slice? c.source c.position c.source.length

/-- The characters that are passed. -/
def passed? : Option (List Char) := Utf8.slice? c.source 0 c.position

/-- The character `n` places ahead, as decoding the characters up to there shows it. -/
def decoded? (n : Nat) : Option Char := c.ahead?.map fun ahead => ahead[n]?.getD '\x00'

/-- The character `n` places ahead, with the null character past the end. For the very next one an
ASCII byte need not be decoded. -/
def peek? (n : Nat) : Option Char :=
  match c.source[c.position]? with
  | none => some '\x00'
  | some b => if n = 0 ∧ b < 0x80 then some (Char.ofNat b.toNat) else c.decoded? n

/-- Passes one character; at the end it stays. -/
def advance? : Option ByteCursor := do
  match (← c.ahead?).head? with
  | none => return c
  | some x =>
    if c.column.toNat + 1 < UInt32.size then
      return { c with position := c.position + x.utf8Size, column := c.column + 1 }
    else none

/-- Goes back over one character; at the start it stays. -/
def retreat? : Option ByteCursor := do
  match (← c.passed?).getLast? with
  | none => return c
  | some x =>
    if x.utf8Size ≤ c.position ∧ 1 ≤ c.column then
      return { c with position := c.position - x.utf8Size, column := c.column - 1 }
    else none

/-- Passes the character ahead if it is `x`, and says whether it did. -/
def accept? (x : Char) : Option (Bool × ByteCursor) := do
  if c.atEnd then return (false, c)
  if (← c.peek? 0) = x then return (true, ← c.advance?)
  return (false, c)

/-- An ASCII byte ahead is a character to pass. -/
theorem ahead?_ne_nil {c : ByteCursor} {b : UInt8} (h : c.source[c.position]? = some b)
    (hb : b < 0x80) : c.ahead? ≠ some [] := by
  obtain ⟨hlt, rfl⟩ := List.getElem?_eq_some_iff.mp h
  intro hahead
  rw [ahead?, Utf8.slice?, List.take_length, List.drop_eq_getElem_cons hlt] at hahead
  split at hahead
  · simp [Utf8.decode?, Utf8.pieces, Utf8.piecesFrom, Utf8.lead, hb,
      Option.bind_eq_some_iff] at hahead
  · nomatch hahead

/-- A space that is ahead can be passed, so the column moves on. -/
theorem column_lt_of_advance? {c d : ByteCursor} (hspace : c.peek? 0 = some ' ')
    (hd : c.advance? = some d) : c.column.toNat < d.column.toNat := by
  obtain ⟨ahead, hahead, hd⟩ := Option.bind_eq_some_iff.mp hd
  cases ahead with
  | nil =>
    exfalso
    unfold peek? at hspace
    split at hspace
    · nomatch hspace
    · next b hb =>
      split at hspace
      · next hascii => exact ahead?_ne_nil hb hascii.2 hahead
      · simp [decoded?, hahead] at hspace
  | cons x ahead =>
    simp only [List.head?_cons] at hd
    split at hd
    · next hcolumn =>
      obtain rfl : _ = d := Option.some.inj hd
      have hmod : (c.column + 1).toNat = c.column.toNat + 1 := by
        rw [UInt32.toNat_add]
        exact Nat.mod_eq_of_lt hcolumn
      simp only [hmod]
      omega
    · nomatch hd

/-- Passes spaces, one at a time, until something else is ahead. -/
def skipSpaces? (c : ByteCursor) : Option ByteCursor :=
  if _hspace : c.peek? 0 = some ' ' then
    match _hd : c.advance? with
    | none => none
    | some d => d.skipSpaces?
  else (c.peek? 0).map fun _ => c
termination_by UInt32.size - c.column.toNat
decreasing_by
  have hlt := column_lt_of_advance? _hspace _hd
  have hsize := d.column.toNat_lt_size
  omega

theorem skipSpaces?_eq (c : ByteCursor) : c.skipSpaces? =
    if c.peek? 0 = some ' ' then c.advance?.bind skipSpaces? else (c.peek? 0).map fun _ => c := by
  rw [skipSpaces?]
  split
  · cases c.advance? <;> rfl
  · rfl

/-- The text from byte position `start` up to the cursor. -/
def slice? (start : Nat) : Option (List Char) := Utf8.slice? c.source start c.position

end ByteCursor

end LexicalAnalyzer
