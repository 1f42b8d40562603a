import LexicalAnalyzer.Scan.Lexer

/-!
The tokens of a line. The lexer skips spaces and comments, marks where a token starts and reads it,
until the line is used up. Each round passes at least one character, so a line has no more tokens
than characters.
-/
namespace LexicalAnalyzer

namespace Lexer

theorem length_rest_pass (n : Nat) (lx : Lexer) :
    (lx.pass n).rest.length = lx.rest.length - n := by
  simp [pass, rest]

theorem length_rest_passWhile_le (p : Char → Bool) (lx : Lexer) :
    (lx.passWhile p).rest.length ≤ lx.rest.length :=
  Cursor.length_after_skipWhile_le p lx.cursor

theorem length_rest_skipComment_le (lx : Lexer) :
    lx.skipComment.2.rest.length ≤ lx.rest.length := by
  unfold skipComment
  split <;> simp [pass, rest, Cursor.skipToEnd]

@[simp] theorem rest_diagnoseUndefined (kind : DiagnosticKind) (lx : Lexer) :
    (lx.diagnoseUndefined kind).rest = lx.rest := rfl

theorem length_rest_passBaseSuffix_le (lx : Lexer) :
    lx.passBaseSuffix.rest.length ≤ lx.rest.length := by
  unfold passBaseSuffix
  split
  · rw [length_rest_pass]; omega
  · exact Nat.le_refl _

theorem length_rest_passSignedExponent_le (lx : Lexer) :
    lx.passSignedExponent.rest.length ≤ lx.rest.length := by
  unfold passSignedExponent
  split
  · split
    · have h := length_rest_passWhile_le isNumeralChar (lx.pass 1)
      rw [length_rest_pass] at h
      omega
    · exact Nat.le_refl _
  · exact Nat.le_refl _

theorem rest_checkNumeral (lx : Lexer) : lx.checkNumeral.rest = lx.rest := by
  unfold checkNumeral
  split <;> rfl

theorem length_rest_readNumeral_le (lx : Lexer) :
    lx.readNumeral.2.rest.length ≤ (lx.passWhile isNumeralChar).rest.length := by
  simp only [readNumeral, rest_checkNumeral]
  exact Nat.le_trans (length_rest_passSignedExponent_le _) (length_rest_passBaseSuffix_le _)

/-- Passes the comment in which the lexer stands, if it stands in one. A comment that does not close
uses up the line. -/
def leaveComment (lx : Lexer) : Lexer :=
  match lx.mode with
  | .normal => lx
  | .comment => lx.skipComment.2

def skipSpaces (lx : Lexer) : Lexer := { lx with cursor := lx.cursor.skipSpaces }

/-- Goes to where a token or a comment may start. -/
def settle (lx : Lexer) : Lexer := lx.leaveComment.skipSpaces

theorem length_rest_leaveComment_le (lx : Lexer) :
    lx.leaveComment.rest.length ≤ lx.rest.length := by
  unfold leaveComment
  split
  · exact Nat.le_refl _
  · exact length_rest_skipComment_le lx

theorem length_rest_settle_le (lx : Lexer) : lx.settle.rest.length ≤ lx.rest.length :=
  Nat.le_trans (Cursor.length_after_skipWhile_le (· == ' ') lx.leaveComment.cursor)
    (length_rest_leaveComment_le lx)

/-- A token read from a line with something left on it passes at least one character. -/
theorem length_rest_readToken_lt (lx : Lexer) (h : lx.rest ≠ []) :
    lx.readToken.2.rest.length < lx.rest.length := by
  obtain ⟨c, cs, hc⟩ := List.exists_cons_of_ne_nil h
  have hpos : 0 < lx.rest.length := List.length_pos_iff.mpr h
  have pass_lt : ∀ n, (lx.pass (n + 1)).rest.length < lx.rest.length := fun n => by
    rw [length_rest_pass]; omega
  unfold readToken
  split
  · rename_i hclass
    refine Nat.lt_of_le_of_lt (length_rest_readNumeral_le lx) ?_
    have hd : c.isDigit = true := isDigit_of_class (by simpa [hc] using hclass)
    have hn : isNumeralChar c = true := by simp [isNumeralChar, hd]
    have ha : (lx.passWhile isNumeralChar).rest = lx.rest.dropWhile isNumeralChar :=
      Cursor.after_skipWhile isNumeralChar lx.cursor
    rw [ha, hc, List.dropWhile_cons_of_pos hn]
    exact Nat.lt_succ_of_le (List.dropWhile_suffix _).length_le
  · exact Nat.lt_of_le_of_lt (length_rest_passWhile_le _ _) (pass_lt 0)
  · unfold readSeparator
    split
    · exact pass_lt 1
    · exact pass_lt 1
    · exact pass_lt 1
    · exact pass_lt 1
    · split
      · refine Nat.lt_of_le_of_lt (length_rest_readNumeral_le _) ?_
        exact Nat.lt_of_le_of_lt (length_rest_passWhile_le _ _) (pass_lt 0)
      · exact pass_lt 0
    · split
      · exact pass_lt 0
      · exact pass_lt 0
    · exact absurd ‹_› h
  · exact pass_lt 0
  · exact pass_lt 0

theorem length_rest_readToken_settle_lt (lx : Lexer) (h : lx.settle.rest ≠ []) :
    lx.settle.markStart.readToken.2.rest.length < lx.rest.length :=
  Nat.lt_of_lt_of_le (length_rest_readToken_lt lx.settle.markStart h) (length_rest_settle_le lx)

/-- The next token of the line, or none when the line is used up. -/
def next (lx : Lexer) : Option Token × Lexer :=
  if _h : lx.settle.rest = [] then (none, lx.settle)
  else
    match _hr : lx.settle.markStart.readToken with
    | (some kind, read) => (some (read.token kind), read)
    | (none, read) => next read
termination_by lx.rest.length
decreasing_by
  have hlt := length_rest_readToken_settle_lt lx _h
  rwa [_hr] at hlt

/-- A token of a line passes at least one character. -/
theorem length_rest_next_lt {lx read : Lexer} {t : Token} (h : lx.next = (some t, read)) :
    read.rest.length < lx.rest.length := by
  fun_induction next lx with
  | case1 => simp at h
  | case2 lx hne kind read' hr =>
    have hlt := length_rest_readToken_settle_lt lx hne
    rw [hr] at hlt
    simp only [Prod.mk.injEq] at h
    rwa [← h.2]
  | case3 lx hne read' hr ih =>
    have hlt := length_rest_readToken_settle_lt lx hne
    rw [hr] at hlt
    exact Nat.lt_trans (ih h) hlt

/-- Up to `n` tokens. -/
def take : Nat → Lexer → List Token × Lexer
  | 0, lx => ([], lx)
  | n + 1, lx =>
    match lx.next with
    | (none, read) => ([], read)
    | (some t, read) =>
      let (ts, last) := read.take n
      (t :: ts, last)

/-- All tokens that are left. -/
def tokens (lx : Lexer) : List Token × Lexer :=
  match _h : lx.next with
  | (none, read) => ([], read)
  | (some t, read) =>
    let (ts, last) := read.tokens
    (t :: ts, last)
termination_by lx.rest.length
decreasing_by exact length_rest_next_lt _h

end Lexer

/-- What comes of scanning a line: its tokens, the mode for the next line, and the report that was
handed in with the line's own diagnostics behind it. -/
structure LineScan where
  tokens : List Token
  mode : Mode
  report : Report
  deriving DecidableEq, Repr

def scanLine (text : List Char) (line : Nat) (mode : Mode) (report : Report) : LineScan :=
  let (tokens, lx) := (Lexer.ofLine text line mode report).tokens
  ⟨tokens, lx.mode, lx.report⟩

end LexicalAnalyzer
