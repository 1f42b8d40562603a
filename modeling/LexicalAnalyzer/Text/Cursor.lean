/-!
A cursor stands between two characters of a text. The characters it has passed lie nearest first,
those ahead in reading order, and two counters tell the place to the outside: the byte offset in
UTF-8 and the column, which counts characters from one.
-/
namespace LexicalAnalyzer

structure Cursor where
  before : List Char
  after : List Char
  offset : Nat
  column : Nat
  deriving DecidableEq, Repr

namespace Cursor

/-- The cursor in front of a text. -/
def ofChars (text : List Char) : Cursor := ⟨[], text, 0, 1⟩

/-- The whole text, on both sides of the cursor. -/
def text (c : Cursor) : List Char := c.before.reverse ++ c.after

def atEnd (c : Cursor) : Bool := c.after.isEmpty

/-- The character `n` places ahead, if the text goes on that far. -/
def peek? (n : Nat) (c : Cursor) : Option Char := c.after[n]?

/-- The character `n` places ahead, with the null character standing for the end of the text. A text
may contain that character as well: only `peek?` and `atEnd` tell the two apart. -/
def peek (n : Nat) (c : Cursor) : Char := (c.peek? n).getD '\x00'

/-- Passes one character; at the end it stays. -/
def advance (c : Cursor) : Cursor :=
  match c.after with
  | [] => c
  | x :: rest => ⟨x :: c.before, rest, c.offset + x.utf8Size, c.column + 1⟩

/-- Goes back over one character; at the start it stays. -/
def retreat (c : Cursor) : Cursor :=
  match c.before with
  | [] => c
  | x :: rest => ⟨rest, x :: c.after, c.offset - x.utf8Size, c.column - 1⟩

/-- Passes up to `n` characters. -/
def advanceBy : Nat → Cursor → Cursor
  | 0, c => c
  | n + 1, c => advanceBy n c.advance

/-- Passes the longest run of characters that satisfy `p`. -/
def skipWhile (p : Char → Bool) (c : Cursor) : Cursor :=
  c.advanceBy (c.after.takeWhile p).length

/-- Only the space itself counts as blank; tabs stay ahead. -/
def skipSpaces (c : Cursor) : Cursor := c.skipWhile (· == ' ')

def skipToEnd (c : Cursor) : Cursor := c.advanceBy c.after.length

/-- Passes the character ahead if it is `x`, and says whether it did. -/
def accept (x : Char) (c : Cursor) : Bool × Cursor :=
  if c.peek? 0 = some x then (true, c.advance) else (false, c)

/-- Takes characters off a nearest-first list until exactly `bytes` bytes are taken. -/
def takeBytes? : List Char → Nat → List Char → Option (List Char)
  | _, 0, taken => some taken
  | [], _ + 1, _ => none
  | x :: rest, n + 1, taken =>
    if x.utf8Size ≤ n + 1 then takeBytes? rest (n + 1 - x.utf8Size) (x :: taken) else none

/-- The text from byte offset `start` up to the cursor. There is none when `start` lies ahead of
the cursor or inside a character. -/
def slice? (start : Nat) (c : Cursor) : Option (List Char) :=
  if start ≤ c.offset then takeBytes? c.before (c.offset - start) [] else none

theorem peek_zero (c : Cursor) : c.peek 0 = c.after.head?.getD '\x00' := by
  rw [peek, peek?, List.head?_eq_getElem?]

@[simp] theorem text_ofChars (text : List Char) : (ofChars text).text = text := rfl

@[simp] theorem text_advance (c : Cursor) : c.advance.text = c.text := by
  cases h : c.after <;> simp [advance, text, h]

@[simp] theorem text_retreat (c : Cursor) : c.retreat.text = c.text := by
  cases h : c.before <;> simp [retreat, text, h]

@[simp] theorem after_advance (c : Cursor) : c.advance.after = c.after.tail := by
  cases h : c.after <;> simp [advance, h]

/-- Going back undoes an advance that moved. -/
theorem retreat_advance (c : Cursor) (h : c.after ≠ []) : c.advance.retreat = c := by
  obtain ⟨before, after, offset, column⟩ := c
  cases after with
  | nil => exact absurd rfl h
  | cons x rest => simp [advance, retreat]

@[simp] theorem text_advanceBy (n : Nat) (c : Cursor) : (c.advanceBy n).text = c.text := by
  induction n generalizing c with
  | zero => rfl
  | succ n ih => simp [advanceBy, ih]

@[simp] theorem after_advanceBy (n : Nat) (c : Cursor) :
    (c.advanceBy n).after = c.after.drop n := by
  induction n generalizing c with
  | zero => rfl
  | succ n ih => simp [advanceBy, ih]

@[simp] theorem after_skipWhile (p : Char → Bool) (c : Cursor) :
    (c.skipWhile p).after = c.after.dropWhile p := by
  simp only [skipWhile, after_advanceBy]
  induction c.after with
  | nil => rfl
  | cons x rest ih => by_cases h : p x <;> simp [h, ih]

theorem length_after_advanceBy_le (n : Nat) (c : Cursor) :
    (c.advanceBy n).after.length ≤ c.after.length := by
  simp

theorem length_after_skipWhile_le (p : Char → Bool) (c : Cursor) :
    (c.skipWhile p).after.length ≤ c.after.length :=
  length_after_advanceBy_le _ c

end Cursor

end LexicalAnalyzer
