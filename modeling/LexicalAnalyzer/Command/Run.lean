import LexicalAnalyzer.Command.Help
import LexicalAnalyzer.Log.Filter
import LexicalAnalyzer.Session

/-!
What the command does: it loads the settings, lets a session carry out the run, and says how it
went. The exit code is zero when both artifacts are written, one when they are not, and two when
the command line makes no sense.
-/
namespace LexicalAnalyzer

namespace Command

/-- Something said on the error stream. -/
inductive Message where
  | event (e : Event)
  | line (text : String)
  deriving DecidableEq, Repr

structure Outcome where
  exitCode : Nat
  output : String := ""
  messages : List Message := []
  /-- Whether log events are written in colour. -/
  coloured : Bool := true
  deriving DecidableEq, Repr

def errorLine (chain : List String) : Message := .line ("error: " ++ ": ".intercalate chain)

/-- What the command leaves to others: the reading of its arguments, of the documents in which
settings are written, and of a filter. -/
structure Readers where
  arguments : List String → Environment → Except UsageError Request
  document : Settings.DocumentReader
  filter? : String → Option LogFilter

/-- The readers of the program. -/
def readers : Readers := ⟨parse, Toml.parse, LogFilter.parse?⟩

/-- A filter of the environment comes first; without a proper one the settings decide. -/
def filterOf (env : Environment) (settings : Settings) (r : Readers := readers) : LogFilter :=
  (env.logFilter.bind r.filter?).getD (.upTo (if settings.verbose then .debug else .info))

/-- What is said of an analysis that is not clean: its diagnostics, then that nothing is written. -/
def refusal (a : Analysis) (f : Failure) : List Message :=
  a.report.toList.map (.line ·.text) ++ [.event (.nothingWritten f.message)]

section Running

variable {m : Type → Type} [Monad m] [FileAccess m]

/-- Carries out a run under settings that are loaded. -/
def process (settings : Settings) (options : Options) : m Outcome := do
  let logged ← Session.run ⟨settings⟩ options.input options.output
  let events := logged.events.map Message.event
  let coloured := !options.noColor
  match logged.result with
  | .error f =>
    let chain := s!"failed to process '{options.input}'" :: f.chain
    return { exitCode := 1, messages := events ++ [errorLine chain], coloured }
  | .ok a =>
    match a.requireClean with
    | .ok () => return { exitCode := 0, messages := events, coloured }
    | .error f => return { exitCode := 1, messages := events ++ refusal a f, coloured }

/-- Drops the events that the filter holds back. -/
def Outcome.filter (f : LogFilter) (o : Outcome) : Outcome :=
  { o with messages := o.messages.filter fun
    | .event e => f.passes e
    | .line _ => true }

/-- Loads the settings and carries out the run. -/
def execute (options : Options) (env : Environment) (r : Readers := readers) : m Outcome := do
  match ← Settings.load options.config env.userDirectory r.document with
  | .error f => return { exitCode := 1, messages := [errorLine f.chain] }
  | .ok settings =>
    let settings := settings.override options.logFile options.verbose
    return (← process settings options).filter (filterOf env settings r)

/-- Does what a command line asks for. -/
def run (arguments : List String) (env : Environment) (r : Readers := readers) : m Outcome := do
  match r.arguments arguments env with
  | .error e => return { exitCode := 2, messages := [errorLine [e.message], .line usageLine] }
  | .ok .help => return { exitCode := 0, output := helpText env }
  | .ok .version => return { exitCode := 0, output := versionText }
  | .ok (.run options) => execute options env r

end Running

end Command

end LexicalAnalyzer
