import LexicalAnalyzer.Text.Utf8

/-!
Writing into a sink with limited room. A write that does not fit leaves what fits in the sink and
fails, and nothing is written behind it; a flush ends the writing and may fail on its own.
-/
namespace LexicalAnalyzer

structure Sink where
  /-- How many more bytes the sink takes. -/
  room : Nat
  /-- Whether a flush succeeds. -/
  flushes : Bool := true
  /-- What it has taken. -/
  taken : Bytes := []
  deriving DecidableEq, Repr

inductive SinkError where
  | full | flush
  deriving DecidableEq, Repr

def SinkError.message : SinkError → String
  | .full => "full"
  | .flush => "flush"

namespace Sink

/-- Takes as many of the bytes as there is room for. -/
def accept (s : Sink) (bytes : Bytes) : Sink :=
  { s with room := s.room - bytes.length, taken := s.taken ++ bytes.take s.room }

/-- Writes pieces one after another, stops at the first that does not fit, and flushes behind the
last. -/
def write (s : Sink) : List String → Except SinkError Unit × Sink
  | [] => (if s.flushes then .ok () else .error .flush, s)
  | piece :: rest =>
    let bytes := Utf8.encode piece
    if bytes.length ≤ s.room then (s.accept bytes).write rest
    else (.error .full, s.accept bytes)

end Sink

end LexicalAnalyzer
