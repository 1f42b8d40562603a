import LexicalAnalyzer.Log.Directive

/-!
Filters on events. A filter is a list of directives. Of those that concern an event the narrowest
decides, and an event that none of them concerns is dropped.
-/
namespace LexicalAnalyzer

abbrev LogFilter := List Directive

namespace LogFilter

/-- Lets everything speak up to a level. -/
def upTo (level : LogLevel) : LogFilter := [{ level := level.rank }]

/-- The filter that directives between commas denote. A text without any is a filter that lets only
errors pass. -/
def parse? (text : String) : Option LogFilter :=
  let parts := (text.splitOn ",").filter (· ≠ "")
  if parts.isEmpty then some (upTo .error) else parts.mapM Directive.parse?

/-- The directive that decides on an event: the narrowest one, and of equals the last. -/
def deciding? (f : LogFilter) (e : Event) : Option Directive :=
  (f.filter (·.concerns e)).foldl
    (fun best d =>
      match best with
      | some b => if d.isAtLeastAsNarrow b then some d else best
      | none => some d)
    none

def passes (f : LogFilter) (e : Event) : Bool :=
  match deciding? f e with
  | some d => e.level.rank ≤ d.level
  | none => false

@[simp] theorem passes_upTo (level : LogLevel) (e : Event) :
    (upTo level).passes e = decide (e.level.rank ≤ level.rank) := by
  simp [passes, deciding?, upTo, Directive.concerns]

end LogFilter

end LexicalAnalyzer
