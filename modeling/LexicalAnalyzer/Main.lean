import LexicalAnalyzer.Command.Run

/-!
The program: the command over the real file system, its arguments and its environment.
-/
namespace LexicalAnalyzer

/-- A refusal of the system, as far as the analyzer tells refusals apart. -/
def FileError.ofSystem : IO.Error → FileError
  | .noFileOrDirectory .. => .notFound
  | .inappropriateType _ 20 _ => .notADirectory
  | .inappropriateType _ 21 _ => .isADirectory
  | .invalidArgument _ 36 _ => .nameTooLong
  | .invalidArgument _ 22 "string contains NUL bytes" => .badName
  | e => .other e.toString

def caught {α : Type} (action : IO α) : IO (Except FileError α) := do
  return (← action.toBaseIO).mapError FileError.ofSystem

instance : FileAccess IO where
  pathExists path := do
    -- What a path leads to need not be readable to exist, but the way to it has to be open.
    return (← (IO.FS.realPath path).toBaseIO).isOk
  readFile path := caught do return (← (← IO.FS.Handle.mk path .read).readBinToEnd).data.toList
  writeFile path content := caught (IO.FS.writeBinFile path ⟨content.toArray⟩)
  removeFile path := caught (IO.FS.removeFile path)

namespace Command

/-- The colour of a level on a terminal. -/
def colourCode : LogLevel → String
  | .error => "31"
  | .warn => "33"
  | .info => "32"
  | .debug => "34"
  | .trace => "35"

def Message.show (coloured : Bool) : Message → String
  | .line text => text
  | .event e =>
    if coloured then s!"\x1b[{colourCode e.level}m{e.level.name}\x1b[0m {e.text}"
    else s!"{e.level.name} {e.text}"

def environment : IO Environment := do
  let userDirectory ← match ← IO.getEnv "XDG_CONFIG_HOME" with
    | some directory =>
      if directory.startsWith "/" then pure (some directory) else pure none
    | none => pure none
  let home := (← IO.getEnv "HOME").filter (· ≠ "")
  return {
    verbose := ← IO.getEnv "MLC_VERBOSE"
    config := ← IO.getEnv "MLC_CONFIG"
    noColor := ← IO.getEnv "MLC_NO_COLOR"
    logFilter := ← IO.getEnv "RUST_LOG"
    userDirectory := userDirectory.or (home.map (Path.join · ".config")) }

end Command

end LexicalAnalyzer

open LexicalAnalyzer in
def main (arguments : List String) : IO UInt32 := do
  let outcome ← Command.run arguments (← Command.environment)
  IO.print outcome.output
  for message in outcome.messages do
    IO.eprintln (message.show outcome.coloured)
  return outcome.exitCode.toUInt32
