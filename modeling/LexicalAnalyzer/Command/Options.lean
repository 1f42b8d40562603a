/-!
The command line: two paths, options with a value, flags. Options may stand before, between and
behind the paths; a lone `--` ends them. Arguments are read from left to right, and the first one
that is wrong, or that asks for help or for the version, decides. What the arguments leave open may
come from environment variables.
-/
namespace LexicalAnalyzer

namespace Command

/-- What a run is asked to do. -/
structure Options where
  input : String
  output : String
  logFile : Option String
  verbose : Bool
  config : Option String
  noColor : Bool
  deriving DecidableEq, Repr

inductive Request where
  | help | version
  | run (options : Options)
  deriving DecidableEq, Repr

inductive UsageError where
  | unknownArgument (argument : String)
  | missingValue (option : String)
  /-- A flag takes no value. -/
  | unexpectedValue (flag : String)
  | repeated (option : String)
  | emptyPath (argument : String)
  | tooManyPaths (argument : String)
  | missingPaths
  /-- A variable that switches a flag is neither `true` nor `false`. -/
  | badSwitch (name value : String)
  deriving DecidableEq, Repr

def UsageError.message : UsageError → String
  | .unknownArgument argument => s!"unexpected argument '{argument}' found"
  | .missingValue option => s!"a value is required for '{option}' but none was supplied"
  | .unexpectedValue flag => s!"unexpected value for '{flag}' found; no more were expected"
  | .repeated option => s!"the argument '{option}' cannot be used multiple times"
  | .emptyPath argument => s!"a value is required for '{argument}' but none was supplied"
  | .tooManyPaths argument => s!"unexpected argument '{argument}' found"
  | .missingPaths => "the following required arguments were not provided: <INPUT> <OUTPUT>"
  | .badSwitch name value => s!"invalid value '{value}' for '{name}'"

/-- Options that take a path. -/
inductive PathOption where
  | logFile | config
  deriving DecidableEq, Repr

inductive Flag where
  | verbose | noColor | help | version
  deriving DecidableEq, Repr

def PathOption.name : PathOption → String
  | .logFile => "--log-file"
  | .config => "--config"

def Flag.name : Flag → String
  | .verbose => "--verbose"
  | .noColor => "--no-color"
  | .help => "--help"
  | .version => "--version"

/-- What a name on the command line stands for. -/
inductive Meaning where
  | path (option : PathOption)
  | flag (flag : Flag)
  deriving DecidableEq, Repr

/-- Long names count in full only. -/
def longMeaning? (name : List Char) : Option Meaning :=
  let name := "--" ++ String.ofList name
  match [PathOption.logFile, .config].find? (·.name = name) with
  | some option => some (.path option)
  | none => ([Flag.verbose, .noColor, .help, .version].find? (·.name = name)).map .flag

def shortMeaning? : Char → Option Meaning
  | 'l' => some (.path .logFile)
  | 'c' => some (.path .config)
  | 'v' => some (.flag .verbose)
  | 'h' => some (.flag .help)
  | 'V' => some (.flag .version)
  | _ => none

/-- The arguments read so far. -/
structure Given where
  paths : List String := []
  logFile : Option String := none
  config : Option String := none
  verbose : Bool := false
  noColor : Bool := false
  deriving DecidableEq, Repr

/-- Where reading the arguments stands: it goes on, or one of them asks for help or the version. -/
inductive Progress where
  | go (given : Given)
  | stop (request : Request)
  deriving DecidableEq, Repr

namespace Given

def addPath (g : Given) (path : String) : Except UsageError Given :=
  if path = "" then .error (.emptyPath "<PATH>")
  else if 2 ≤ g.paths.length then .error (.tooManyPaths path)
  else .ok { g with paths := g.paths ++ [path] }

/-- No option is given twice, and none gets an empty path. -/
def setPath (g : Given) (option : PathOption) (path : String) : Except UsageError Given :=
  if path = "" then .error (.emptyPath option.name)
  else
    match option with
    | .logFile =>
      if g.logFile.isSome then .error (.repeated option.name)
      else .ok { g with logFile := some path }
    | .config =>
      if g.config.isSome then .error (.repeated option.name)
      else .ok { g with config := some path }

def setFlag (g : Given) : Flag → Except UsageError Progress
  | .help => .ok (.stop .help)
  | .version => .ok (.stop .version)
  | .verbose =>
    if g.verbose then .error (.repeated Flag.verbose.name)
    else .ok (.go { g with verbose := true })
  | .noColor =>
    if g.noColor then .error (.repeated Flag.noColor.name)
    else .ok (.go { g with noColor := true })

end Given

/-- What one argument comes to: reading goes on or stops, or an option waits for its value in the
next argument. -/
inductive Reading where
  | done (progress : Progress)
  | awaiting (given : Given) (option : PathOption)
  deriving DecidableEq, Repr

/-- Reads the letters behind a single dash. Flags may be joined; an option takes the rest of the
argument, less an equals sign in front, as its value. -/
def readLetters (g : Given) : List Char → Except UsageError Reading
  | [] => .ok (.done (.go g))
  | letter :: rest =>
    match shortMeaning? letter with
    | none => .error (.unknownArgument ("-" ++ letter.toString))
    | some (.flag flag) => do
      match ← g.setFlag flag with
      | .go g => readLetters g rest
      | .stop request => return .done (.stop request)
    | some (.path option) => do
      match rest with
      | [] => return .awaiting g option
      | '=' :: value => return .done (.go (← g.setPath option (.ofList value)))
      | value => return .done (.go (← g.setPath option (.ofList value)))

/-- Reads what stands behind two dashes: a name, or a name, an equals sign and a value. -/
def readName (g : Given) (cs : List Char) : Except UsageError Reading := do
  let name := cs.takeWhile (· ≠ '=')
  let value? := (cs.dropWhile (· ≠ '=')).tail?
  match longMeaning? name, value? with
  | none, _ => throw (.unknownArgument ("--" ++ String.ofList cs))
  | some (.flag flag), none => return .done (← g.setFlag flag)
  | some (.flag flag), some _ => throw (.unexpectedValue flag.name)
  | some (.path option), none => return .awaiting g option
  | some (.path option), some value => return .done (.go (← g.setPath option (.ofList value)))

/-- Reads one argument. A lone dash is a path. -/
def readArgument (g : Given) (argument : String) : Except UsageError Reading :=
  match argument.toList with
  | '-' :: '-' :: name => readName g name
  | '-' :: letter :: letters => readLetters g (letter :: letters)
  | _ => (g.addPath argument).map fun g => .done (.go g)

/-- A separate value may not look like an option. -/
def isValue (argument : String) : Bool :=
  match argument.toList with
  | '-' :: _ :: _ => false
  | _ => true

/-- Reads arguments in order. -/
def readArguments (g : Given) : List String → Except UsageError Progress
  | [] => .ok (.go g)
  | "--" :: rest => (rest.foldlM Given.addPath g).map .go
  | argument :: rest =>
    match readArgument g argument with
    | .error e => .error e
    | .ok (.done (.stop request)) => .ok (.stop request)
    | .ok (.done (.go g)) => readArguments g rest
    | .ok (.awaiting g option) =>
      match rest with
      | [] => .error (.missingValue option.name)
      | value :: rest =>
        if isValue value then
          match g.setPath option value with
          | .error e => .error e
          | .ok g => readArguments g rest
        else .error (.missingValue option.name)

/-- The variables that a run looks at, as far as they are set. -/
structure Environment where
  verbose : Option String := none
  config : Option String := none
  noColor : Option String := none
  /-- The filter for log events. -/
  logFilter : Option String := none
  /-- The directory in which the user's configuration lies. -/
  userDirectory : Option String := none
  deriving DecidableEq, Repr

/-- A flag is on when it is given; otherwise its variable decides. -/
def switch (given : Bool) (name : String) (value : Option String) :
    Except UsageError Bool :=
  if given then .ok true
  else
    match value with
    | none => .ok false
    | some "true" => .ok true
    | some "false" => .ok false
    | some value => .error (.badSwitch name value)

/-- Fills in from the environment what the arguments leave open. -/
def Given.complete (g : Given) (env : Environment) : Except UsageError Options := do
  let verbose ← switch g.verbose "MLC_VERBOSE" env.verbose
  let noColor ← switch g.noColor "MLC_NO_COLOR" env.noColor
  let config ← match g.config, env.config with
    | some path, _ => pure (some path)
    | none, some "" => throw (.emptyPath PathOption.config.name)
    | none, path => pure path
  match g.paths with
  | [input, output] => return { input, output, logFile := g.logFile, verbose, config, noColor }
  | _ => throw .missingPaths

/-- What a command line asks for. -/
def parse (arguments : List String) (env : Environment) : Except UsageError Request := do
  match ← readArguments {} arguments with
  | .stop request => return request
  | .go given => return .run (← given.complete env)

end Command

end LexicalAnalyzer
