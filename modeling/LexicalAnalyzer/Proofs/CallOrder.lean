import LexicalAnalyzer.Proofs.Lexing
import Mathlib.Logic.Relation

/-!
Calls of a lexer from outside, in any order. A call, and any part of it, comes down to a few kinds
of steps: characters are passed, a token's start is marked, the mode turns, a diagnostic is recorded.
Each of them leaves the token's start and the cursor between characters of the text, the start never
ahead, both columns in step with their places. So the slice from the start up to the cursor is there
whenever it is taken, also where the start is that of a token long past.
-/
namespace LexicalAnalyzer

namespace Lexer

/-- What can be asked of a lexer from outside. -/
inductive Call where
  | next
  | skipComment
  | readNumeral
  | readWord
  | readSeparator
  | diagnose (kind : DiagnosticKind) (message : String)
  deriving DecidableEq, Repr

/-- The lexer behind a call. -/
def call (lx : Lexer) : Call → Lexer
  | .next => lx.next.2
  | .skipComment => lx.skipComment.2
  | .readNumeral => lx.readNumeral.2
  | .readWord => lx.readWord.2
  | .readSeparator => lx.readSeparator.2
  | .diagnose kind message => lx.diagnose kind message

def callAll (lx : Lexer) (calls : List Call) : Lexer := calls.foldl call lx

/-- What a call is made of. -/
inductive Step (lx : Lexer) : Lexer → Prop where
  | pass (n : Nat) : Step lx (lx.pass n)
  | mark : Step lx lx.markStart
  | turn (mode : Mode) : Step lx { lx with mode }
  | record (kind : DiagnosticKind) (message : String) : Step lx (lx.diagnose kind message)

def Steps : Lexer → Lexer → Prop := Relation.ReflTransGen Step

/-- A sign that joins a numeral is passed before it is known whether a digit follows it. Where none
does, the cursor goes back over the sign. -/
def trySignedExponent (lx : Lexer) : Lexer :=
  if lx.lexeme.getLast?.any NumeralFormat.isExponentMark &&
      NumeralFormat.isSign (lx.cursor.peek 0) then
    let signed := { lx with cursor := lx.cursor.advance }
    if (signed.cursor.peek 0).isDigit then signed.passWhile isNumeralChar
    else { signed with cursor := signed.cursor.retreat }
  else lx

namespace Steps

variable {lx mid last : Lexer}

theorem refl (lx : Lexer) : lx.Steps lx := Relation.ReflTransGen.refl

theorem trans (h : lx.Steps mid) (h' : mid.Steps last) : lx.Steps last :=
  Relation.ReflTransGen.trans h h'

theorem pass (lx : Lexer) (n : Nat) : lx.Steps (lx.pass n) := .single (.pass n)

theorem mark (lx : Lexer) : lx.Steps lx.markStart := .single .mark

theorem turn (lx : Lexer) (mode : Mode) : lx.Steps { lx with mode } := .single (.turn mode)

theorem record (lx : Lexer) (kind : DiagnosticKind) (message : String) :
    lx.Steps (lx.diagnose kind message) := .single (.record kind message)

theorem passWhile (lx : Lexer) (p : Char → Bool) : lx.Steps (lx.passWhile p) := by
  rw [passWhile_eq_pass]
  exact pass lx _

theorem passBaseSuffix (lx : Lexer) : lx.Steps lx.passBaseSuffix := by
  unfold Lexer.passBaseSuffix
  split
  · exact pass lx 1
  · exact refl lx

theorem passSignedExponent (lx : Lexer) : lx.Steps lx.passSignedExponent := by
  unfold Lexer.passSignedExponent
  split
  · split
    · exact (pass lx 1).trans (passWhile _ _)
    · exact refl lx
  · exact refl lx

theorem checkNumeral (lx : Lexer) : lx.Steps lx.checkNumeral := by
  unfold Lexer.checkNumeral
  split
  · exact refl lx
  · exact record lx _ _

theorem readNumeral (lx : Lexer) : lx.Steps lx.readNumeral.2 := by
  simp only [Lexer.readNumeral]
  exact (passWhile lx _).trans <| (passBaseSuffix _).trans <| (passSignedExponent _).trans <|
    checkNumeral _

theorem readWord (lx : Lexer) : lx.Steps lx.readWord.2 := (pass lx 1).trans (passWhile _ _)

theorem readStray (lx : Lexer) : lx.Steps lx.readStray.2 := (pass lx 1).trans (record _ _ _)

theorem readSeparator (lx : Lexer) : lx.Steps lx.readSeparator.2 := by
  unfold Lexer.readSeparator
  split
  · exact (pass lx 2).trans (turn _ _)
  · exact pass lx 2
  · exact pass lx 2
  · exact pass lx 2
  · split
    · have hread := readNumeral (lx.pass 1)
      simp only [Lexer.readNumeral] at hread ⊢
      exact (pass lx 1).trans hread
    · exact pass lx 1
  · split
    · exact pass lx 1
    · exact readStray lx
  · exact readStray lx

theorem readToken (lx : Lexer) : lx.Steps lx.readToken.2 := by
  unfold Lexer.readToken
  split
  · simpa using readNumeral lx
  · simpa using readWord lx
  · exact readSeparator lx
  · simpa using readStray lx
  · simpa using readStray lx

theorem skipComment (lx : Lexer) : lx.Steps lx.skipComment.2 := by
  unfold Lexer.skipComment
  split
  · exact (pass lx _).trans (turn _ _)
  · exact pass lx _

theorem leaveComment (lx : Lexer) : lx.Steps lx.leaveComment := by
  unfold Lexer.leaveComment
  split
  · exact refl lx
  · exact skipComment lx

theorem settle (lx : Lexer) : lx.Steps lx.settle := (leaveComment lx).trans (passWhile _ _)

/-- A round of the loop of `next` settles, marks a start and reads. -/
theorem next (lx : Lexer) : lx.Steps lx.next.2 := by
  fun_induction Lexer.next lx with
  | case1 lx h => exact settle lx
  | case2 lx h kind read hr =>
    have hread := readToken lx.settle.markStart
    rw [hr] at hread
    exact (settle lx).trans ((mark _).trans hread)
  | case3 lx h read hr ih =>
    have hread := readToken lx.settle.markStart
    rw [hr] at hread
    exact (settle lx).trans ((mark _).trans (hread.trans ih))

/-- Every call is made of steps. -/
theorem call (lx : Lexer) (c : Call) : lx.Steps (lx.call c) := by
  cases c with
  | next => exact next lx
  | skipComment => exact skipComment lx
  | readNumeral => exact readNumeral lx
  | readWord => exact readWord lx
  | readSeparator => exact readSeparator lx
  | diagnose kind message => exact record lx kind message

theorem callAll (lx : Lexer) (calls : List Call) : lx.Steps (lx.callAll calls) := by
  induction calls generalizing lx with
  | nil => exact refl lx
  | cons c calls ih => exact (call lx c).trans (ih _)

end Steps

/-- Where a lexer stands on a text: the current token starts behind the front, the cursor stands
behind the front and the word, and both offsets count bytes where the columns count characters. -/
structure Placed (text front word : List Char) (lx : Lexer) : Prop where
  text_eq : text = front ++ word ++ lx.rest
  before : lx.cursor.before = (front ++ word).reverse
  offset : lx.cursor.offset = Cursor.byteCount (front ++ word)
  column : lx.cursor.column = (front ++ word).length + 1
  start : lx.start = Cursor.byteCount front
  startColumn : lx.startColumn = front.length + 1

theorem placed_ofLine (text : List Char) (line : Nat) (mode : Mode) (report : Report) :
    (ofLine text line mode report).Placed text [] [] := ⟨rfl, rfl, rfl, rfl, rfl, rfl⟩

namespace Placed

variable {text front word : List Char} {lx last : Lexer}

/-- The characters passed join the word. -/
theorem pass (h : lx.Placed text front word) (n : Nat) :
    (lx.pass n).Placed text front (word ++ lx.rest.take n) := by
  have hcursor := Cursor.advanceBy_eq n lx.cursor
  refine ⟨?_, ?_, ?_, ?_, h.start, h.startColumn⟩
  · rw [h.text_eq, rest_pass]
    simp
  · rw [← List.append_assoc, List.reverse_append, ← h.before]
    exact congrArg Cursor.before hcursor
  · rw [← List.append_assoc, Cursor.byteCount_append, ← h.offset]
    exact congrArg Cursor.offset hcursor
  · rw [column_pass, h.column]
    simp only [List.length_append]
    omega

theorem markStart (h : lx.Placed text front word) :
    lx.markStart.Placed text (front ++ word) [] := by
  refine ⟨?_, ?_, ?_, ?_, h.offset, h.column⟩
  all_goals rw [List.append_nil]
  · exact h.text_eq
  · exact h.before
  · exact h.offset
  · exact h.column

theorem step (h : lx.Placed text front word) (hs : lx.Step last) :
    ∃ front word, last.Placed text front word := by
  cases hs with
  | pass n => exact ⟨_, _, h.pass n⟩
  | mark => exact ⟨_, _, h.markStart⟩
  | turn mode => exact ⟨front, word, h.text_eq, h.before, h.offset, h.column, h.start, h.startColumn⟩
  | record kind message =>
    exact ⟨front, word, h.text_eq, h.before, h.offset, h.column, h.start, h.startColumn⟩

/-- Whatever steps it takes, a lexer keeps a place on its text. -/
theorem steps (h : lx.Placed text front word) (hs : lx.Steps last) :
    ∃ front word, last.Placed text front word := by
  induction hs with
  | refl => exact ⟨front, word, h⟩
  | tail _ hstep ih =>
    obtain ⟨_, _, hmid⟩ := ih
    exact hmid.step hstep

theorem start_le_offset (h : lx.Placed text front word) : lx.start ≤ lx.cursor.offset := by
  rw [h.start, h.offset, Cursor.byteCount_append]
  exact Nat.le_add_right _ _

theorem offset_le (h : lx.Placed text front word) :
    lx.cursor.offset ≤ Cursor.byteCount text := by
  rw [h.offset, h.text_eq, Cursor.byteCount_append (front ++ word)]
  exact Nat.le_add_right _ _

/-- The slice from the token's start up to the cursor is the word. -/
theorem slice?_eq (h : lx.Placed text front word) : lx.cursor.slice? lx.start = some word := by
  have hsub : lx.cursor.offset - lx.start = Cursor.byteCount word.reverse := by
    rw [h.offset, h.start, Cursor.byteCount_append, Nat.add_sub_cancel_left,
      Cursor.byteCount_reverse]
  rw [Cursor.slice?, if_pos h.start_le_offset, hsub, h.before, List.reverse_append,
    Cursor.takeBytes?_append, List.reverse_reverse, List.append_nil]

end Placed

/-- No step goes back. -/
theorem Step.offset_le {lx last : Lexer} (h : lx.Step last) :
    lx.cursor.offset ≤ last.cursor.offset := by
  cases h with
  | pass n =>
    have hcursor : (lx.pass n).cursor.offset = _ :=
      congrArg Cursor.offset (Cursor.advanceBy_eq n lx.cursor)
    rw [hcursor]
    exact Nat.le_add_right _ _
  | mark => exact Nat.le_refl _
  | turn mode => exact Nat.le_refl _
  | record kind message => exact Nat.le_refl _

theorem Steps.offset_le {lx last : Lexer} (h : lx.Steps last) :
    lx.cursor.offset ≤ last.cursor.offset := by
  induction h with
  | refl => exact Nat.le_refl _
  | tail _ hstep ih => exact Nat.le_trans ih hstep.offset_le

/-- Going back over the sign undoes the advance over it, so looking at the sign and the character
behind it first comes to the same. The null character that stands for the end of the line is
neither a sign nor a digit. -/
theorem trySignedExponent_eq (lx : Lexer) : lx.trySignedExponent = lx.passSignedExponent := by
  have hsigned : ({ lx with cursor := lx.cursor.advance } : Lexer) = lx.pass 1 := rfl
  have hback : lx.rest ≠ [] →
      ({ lx with cursor := lx.cursor.advance.retreat } : Lexer) = lx := fun h => by
    rw [Cursor.retreat_advance lx.cursor h]
  have hrest : lx.cursor.after = lx.rest := rfl
  unfold trySignedExponent passSignedExponent
  simp only [hsigned, Cursor.peek_zero, Cursor.after_advance, hrest]
  cases lx.lexeme.getLast? with
  | none => rfl
  | some mark =>
    cases hr : lx.rest with
    | nil => simp [NumeralFormat.isSign]
    | cons sign tail =>
      rw [hback (by simp [hr])]
      cases tail with
      | nil => simp
      | cons digit more =>
        by_cases hd : digit.isDigit = true
        · simp [hd]
        · simp [hd]

end Lexer

/-- A lexer is safe under any order of calls. Between calls, and in every state that a call goes
through, its current token starts between two characters of the text, the cursor stands there or
farther on, both columns count the characters in front, and the slice between them exists. No call
moves the cursor back: where a sign is given back, the same call has passed it. -/
theorem call_order_is_safe (text : List Char) (line : Nat) (mode : Mode) (report : Report)
    (calls : List Lexer.Call) :
    let lx := (Lexer.ofLine text line mode report).callAll calls
    (∃ front word, lx.Placed text front word ∧ lx.start ≤ lx.cursor.offset ∧
      lx.cursor.offset ≤ Cursor.byteCount text ∧ lx.cursor.slice? lx.start = some word) ∧
    (∀ c, lx.cursor.offset ≤ (lx.call c).cursor.offset ∧ lx.Steps (lx.call c)) ∧
    (∀ within, lx.Steps within → ∃ front word, within.Placed text front word ∧
      within.cursor.slice? within.start = some word) ∧
    ∀ within : Lexer, within.trySignedExponent = within.passSignedExponent := by
  intro lx
  have hstart := Lexer.placed_ofLine text line mode report
  have hcalls : (Lexer.ofLine text line mode report).Steps lx := .callAll _ calls
  refine ⟨?_, fun c => ?_, fun within hwithin => ?_, fun within => within.trySignedExponent_eq⟩
  · obtain ⟨front, word, h⟩ := hstart.steps hcalls
    exact ⟨front, word, h, h.start_le_offset, h.offset_le, h.slice?_eq⟩
  · have hcall : lx.Steps (lx.call c) := .call lx c
    exact ⟨hcall.offset_le, hcall⟩
  · obtain ⟨front, word, h⟩ := hstart.steps (hcalls.trans hwithin)
    exact ⟨front, word, h, h.slice?_eq⟩

/-- Behind calls that the scan would not make the token's start is stale, in front of two bytes. The
sign is passed and given back, and the slice up to behind it exists meanwhile. -/
theorem call_order_is_safe_sign :
    let lx := (Lexer.ofLine "é1E+x".toList 1 .normal {}).callAll [.readWord, .readNumeral]
    lx.rest = "+x".toList ∧ lx.trySignedExponent = lx ∧ lx.Steps (lx.pass 1) ∧
    ∃ front word, (lx.pass 1).Placed "é1E+x".toList front word ∧
      (lx.pass 1).cursor.slice? (lx.pass 1).start = some word := by
  intro lx
  have hstep : lx.Steps (lx.pass 1) := .pass lx 1
  obtain ⟨_, _, hwithin, hback⟩ :=
    call_order_is_safe "é1E+x".toList 1 .normal {} [.readWord, .readNumeral]
  have hgiven : lx.passSignedExponent = lx := by decide +kernel
  exact ⟨by decide +kernel, (hback lx).trans hgiven, hstep, hwithin _ hstep⟩

end LexicalAnalyzer
