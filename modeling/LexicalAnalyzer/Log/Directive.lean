import LexicalAnalyzer.Log.Event
import LexicalAnalyzer.Log.Pattern

/-!
Directives: each lets some events speak up to a level. A directive is written as a level, as what
the events have in common, or as both with an equals sign between them. What they have in common is
the start of a component's name, and behind it in square brackets the name of a scope and in curly
brackets the name of a value, perhaps with the value itself.
-/
namespace LexicalAnalyzer

/-- A value that an event has to hold. -/
structure Requirement where
  name : String
  /-- What the value has to be, if that matters. -/
  value : Option String
  deriving DecidableEq, Repr

/-- Which events a directive is about, and the level that it sets; a level of zero is silence. -/
structure Directive where
  /-- The start of a component's name. -/
  component : Option String := none
  scope : Option String := none
  requirement : Option Requirement := none
  level : Nat := LogLevel.trace.rank
  deriving DecidableEq, Repr

/-- Whether a value can be described by a text: by a truth value, a number or a pattern. Only a
number with a plus in front is no pattern as well. -/
def Requirement.isValue (cs : List Char) : Bool :=
  match cs with
  | '+' :: unsigned => isNumber unsigned
  | _ => isPattern cs
where
  isNumber (cs : List Char) : Bool :=
    let fraction := cs.dropWhile Char.isDigit
    let (places, rest) :=
      match fraction with
      | '.' :: fraction => (fraction.takeWhile Char.isDigit, fraction.dropWhile Char.isDigit)
      | rest => ([], rest)
    ["inf", "infinity", "nan"].contains (String.ofList cs).toLower ||
      (!(cs.takeWhile Char.isDigit ++ places).isEmpty && isExponent rest)
  isExponent : List Char → Bool
    | [] => true
    | mark :: sign :: rest =>
      let digits := if sign = '+' ∨ sign = '-' then rest else sign :: rest
      mark.toLower = 'e' && !digits.isEmpty && digits.all Char.isDigit
    | _ => false

/-- A name, or a name and a value with an equals sign between them; a second one ends the value. -/
def Requirement.parse? (cs : List Char) : Option Requirement :=
  let name := String.ofList (cs.takeWhile (· ≠ '='))
  match cs.dropWhile (· ≠ '=') with
  | [] => some ⟨name, none⟩
  | _ :: rest =>
    let value := rest.takeWhile (· ≠ '=')
    if isValue value then some ⟨name, some (.ofList value)⟩ else none

namespace Directive

/-- The level that a number up to five stands for; a plus and zeros may stand in front. -/
def levelOfNumber? (cs : List Char) : Option Nat :=
  let digits := if cs.head? = some '+' then cs.tail else cs
  if digits ≠ [] ∧ digits.all Char.isDigit ∧ naturalOf 10 digits ≤ LogLevel.trace.rank then
    some (naturalOf 10 digits)
  else none

def levelOfWord? (cs : List Char) : Option Nat :=
  let word := (String.ofList cs).toLower
  if word = "off" then some 0
  else
    match LogLevel.all.find? (·.name.toLower = word) with
    | some level => some level.rank
    | none => levelOfNumber? cs

/-- The level behind an equals sign; nothing there means everything. -/
def levelBehindSign? (cs : List Char) : Option Nat :=
  if cs = [] then some LogLevel.trace.rank else levelOfWord? cs

/-- A part of a text: how many characters come before it, and how many it has. -/
structure Span where
  start : Nat
  length : Nat
  deriving DecidableEq, Repr

def Span.cut (s : Span) (cs : List Char) : List Char := (cs.drop s.start).take s.length

/-- The parts of a directive between square brackets, and where the bracket is closed. -/
structure Bracket where
  scope : Span
  requirement : Option Span
  stop : Nat
  deriving DecidableEq, Repr

/-- Reads on behind the opening of a square bracket; `start` characters come before that place. -/
def bracket? (start : Nat) (cs : List Char) : Option Bracket :=
  let name := cs.takeWhile fun c => c ≠ ']' && c ≠ '\x7b'
  let scope : Span := ⟨start, name.length⟩
  match cs.drop name.length with
  | ']' :: _ => some ⟨scope, none, start + name.length + 1⟩
  | '\x7b' :: rest =>
    let inner := rest.takeWhile (· ≠ '\x7d')
    let requirement : Span := ⟨start + name.length + 1, inner.length⟩
    match rest.drop inner.length with
    | '\x7d' :: ']' :: _ =>
      if inner = [] then none
      else some ⟨scope, some requirement, requirement.start + inner.length + 2⟩
    | _ => none
  | _ => none

def isStart (c : Char) : Bool :=
  c == '[' || ['-', ':', '_'].contains c || Unicode.isAlphanumeric c

/-- A text less the white space around it. -/
def trim (cs : List Char) : List Char :=
  ((cs.dropWhile Unicode.isWhiteSpace).reverse.dropWhile Unicode.isWhiteSpace).reverse

/-- The directive with a square bracket that opens right before the place that `start` characters
come before. -/
def ofBracket? (cs trimmed : List Char) (component : Option String) (start : Nat) :
    Option Directive := do
  let b ← bracket? start (trimmed.drop start)
  let scope := String.ofList (b.scope.cut cs)
  let requirement ← match b.requirement with
    | none => some none
    | some span => (Requirement.parse? (span.cut cs)).map some
  let level ← match trimmed.drop b.stop with
    | [] => some LogLevel.trace.rank
    | '=' :: _ => levelBehindSign? (cs.drop (b.stop + 1))
    | _ => none
  let scope := if b.requirement.isSome ∧ scope = "" then none else some scope
  return { component, scope, requirement, level }

/-- The directive that a text denotes. -/
def parse? (written : String) : Option Directive :=
  let cs := written.toList
  let trimmed := trim cs
  let head := trimmed.takeWhile fun c => c ≠ '=' && c ≠ '['
  let component := String.ofList (cs.take head.length)
  if !(trimmed.head?.map isStart).getD false then none
  else
    match trimmed.drop head.length with
    | [] =>
      match levelOfWord? cs with
      | some level => some { level }
      | none => some { component := written }
    | '=' :: _ =>
      (levelBehindSign? (cs.drop (head.length + 1))).map ({ component, level := · })
    | _ =>
      ofBracket? cs trimmed (if head = [] then none else some component) (head.length + 1)

/-- Whether the directive is about an event. No event lies in a scope, and the values of events are
not looked at. -/
def concerns (d : Directive) (e : Event) : Bool :=
  d.scope.isNone &&
  (d.component.all fun start => start.toList.isPrefixOf e.component.toList) &&
  d.requirement.all fun r => r.value.isNone && e.names.contains r.name

/-- How much of a component's name a directive gives; to give none is less than an empty part. -/
def componentSize (d : Directive) : Nat :=
  match d.component with
  | none => 0
  | some start => start.length + 1

/-- Of two directives on one event the one that gives more of the component's name is narrower, then
the one that requires a value, then the one whose value has the greater name. -/
def isAtLeastAsNarrow (d other : Directive) : Bool :=
  if d.componentSize ≠ other.componentSize then other.componentSize < d.componentSize
  else
    match d.requirement, other.requirement with
    | _, none => true
    | none, some _ => false
    | some r, some s => s.name ≤ r.name

end Directive

end LexicalAnalyzer
