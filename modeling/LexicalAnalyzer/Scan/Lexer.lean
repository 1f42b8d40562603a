import LexicalAnalyzer.Diagnostic
import LexicalAnalyzer.Numeral
import LexicalAnalyzer.Text.Cursor
import LexicalAnalyzer.Token

/-!
The lexer of one line. Its state is a cursor on the line, the mode, the place where the current
token starts and the report so far. Each reading step below passes one kind of lexeme and tells the
kind of the token; what it passed is the text from the token's start up to the cursor.
-/
namespace LexicalAnalyzer

/-- A block comment may go on over a line's end, so the next line starts in the mode in which this
one ends. -/
inductive Mode where
  | normal | comment
  deriving DecidableEq, Repr

def Mode.name : Mode → String
  | .normal => "Normal"
  | .comment => "InBlockComment"

structure Lexer where
  cursor : Cursor
  line : Nat
  mode : Mode
  /-- The byte offset at which the current token starts. -/
  start : Nat
  /-- The column in which the current token starts. -/
  startColumn : Nat
  report : Report
  deriving DecidableEq, Repr

namespace Lexer

def ofLine (text : List Char) (line : Nat) (mode : Mode) (report : Report) : Lexer :=
  { cursor := .ofChars text, line, mode, start := 0, startColumn := 1, report }

/-- The characters ahead. -/
def rest (lx : Lexer) : List Char := lx.cursor.after

/-- The characters from the start of the current token up to the cursor. The start never lies ahead
of the cursor or inside a character, so the slice is always there. -/
def lexeme (lx : Lexer) : List Char := (lx.cursor.slice? lx.start).getD []

def position (lx : Lexer) : Position := ⟨lx.line, lx.startColumn⟩

def token (lx : Lexer) (kind : TokenKind) : Token := ⟨kind, .ofList lx.lexeme, lx.position⟩

/-- Passes up to `n` characters. -/
def pass (n : Nat) (lx : Lexer) : Lexer := { lx with cursor := lx.cursor.advanceBy n }

def passWhile (p : Char → Bool) (lx : Lexer) : Lexer :=
  { lx with cursor := lx.cursor.skipWhile p }

/-- The current token starts here. -/
def markStart (lx : Lexer) : Lexer :=
  { lx with start := lx.cursor.offset, startColumn := lx.cursor.column }

/-- Records a diagnostic at the start of the current token. -/
def diagnose (kind : DiagnosticKind) (message : String) (lx : Lexer) : Lexer :=
  { lx with report := lx.report.record ⟨kind, lx.position, message⟩ }

/-- Records that the current token is no proper one. -/
def diagnoseUndefined (kind : DiagnosticKind) (lx : Lexer) : Lexer :=
  lx.diagnose kind (Diagnostic.undefinedMessage (.ofList lx.lexeme))

/-- How many characters it takes to pass the first `*/`, if there is one. -/
def closeLength? : List Char → Option Nat
  | [] => none
  | '*' :: '/' :: _ => some 2
  | _ :: rest => (closeLength? rest).map (· + 1)

/-- Passes the text of a comment. Where it closes the lexer is back in normal mode; otherwise the
line is used up and the mode stays. -/
def skipComment (lx : Lexer) : Bool × Lexer :=
  match closeLength? lx.rest with
  | some n => (true, { lx.pass n with mode := .normal })
  | none => (false, { lx with cursor := lx.cursor.skipToEnd })

def isBaseSuffix (c : Char) : Bool := ['H', 'h', 'O', 'o'].contains c

/-- Passes one suffix letter that is no body character. -/
def passBaseSuffix (lx : Lexer) : Lexer :=
  if lx.rest.head?.any isBaseSuffix then lx.pass 1 else lx

/-- A sign joins a numeral that ends in an exponent mark, provided that a digit follows the sign. -/
def passSignedExponent (lx : Lexer) : Lexer :=
  match lx.lexeme.getLast?, lx.rest with
  | some mark, sign :: digit :: _ =>
    if NumeralFormat.isExponentMark mark && NumeralFormat.isSign sign && digit.isDigit then
      (lx.pass 1).passWhile isNumeralChar
    else lx
  | _, _ => lx

/-- Reports the lexeme unless it is a numeral of some format. -/
def checkNumeral (lx : Lexer) : Lexer :=
  if isValidNumeral lx.lexeme then lx else lx.diagnoseUndefined .malformedNumeral

/-- Passes a numeral as far as it goes and checks it afterwards. A dot in front of it may already
be passed. -/
def readNumeral (lx : Lexer) : TokenKind × Lexer :=
  (.number, (lx.passWhile isNumeralChar).passBaseSuffix.passSignedExponent.checkNumeral)

/-- Passes one character, whatever it is, and the letters and digits behind it. -/
def readWord (lx : Lexer) : TokenKind × Lexer :=
  let lx := (lx.pass 1).passWhile Char.isAlphanum
  (.ofWord (.ofList lx.lexeme), lx)

/-- Passes one character that starts no token and reports it. -/
def readStray (lx : Lexer) : TokenKind × Lexer :=
  (.error, (lx.pass 1).diagnoseUndefined .unrecognizedCharacter)

/-- Passes a separator, the two-character ones first. A dot in front of a digit starts a numeral.
A slash and a star open a comment, and then there is no token. -/
def readSeparator (lx : Lexer) : Option TokenKind × Lexer :=
  match lx.rest with
  | '/' :: '*' :: _ => (none, { lx.pass 2 with mode := .comment })
  | '<' :: '=' :: _ | '<' :: '>' :: _ | '>' :: '=' :: _ => (some .separator, lx.pass 2)
  | '.' :: digit :: _ =>
    if digit.isDigit then
      let (kind, lx) := (lx.pass 1).readNumeral
      (some kind, lx)
    else (some .separator, lx.pass 1)
  | c :: _ =>
    if isSeparatorChar c then (some .separator, lx.pass 1)
    else
      let (kind, lx) := lx.readStray
      (some kind, lx)
  | [] =>
    let (kind, lx) := lx.readStray
    (some kind, lx)

/-- Passes one token, or the opening of a comment; its first character decides how. -/
def readToken (lx : Lexer) : Option TokenKind × Lexer :=
  match lx.rest.head?.map CharClass.of with
  | some .digit => lx.readNumeral.map some id
  | some .letter => lx.readWord.map some id
  | some .separator => lx.readSeparator
  | some .invalid | none => lx.readStray.map some id

end Lexer

end LexicalAnalyzer
