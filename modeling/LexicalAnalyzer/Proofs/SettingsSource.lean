import LexicalAnalyzer.Proofs.CommandOutcome

/-!
Where settings come from. One source decides: the file that is named, or else the first that exists
of the file in the working directory and the one in the user's configuration directory. What the
deciding source holds is all that matters, so one that is no use ends the run with a failure, and
what lies at the other sources is never seen.
-/
namespace LexicalAnalyzer

namespace Settings

/-- The text of a content that has been read. -/
def textOf : Except FileError Bytes → Except FileError (List Char)
  | .error e => .error e
  | .ok bytes =>
    match Utf8.decode? bytes with
    | some text => .ok text
    | none => .error .notUtf8

/-- What is made of a source, by whether it exists and what reading it gives. -/
def ofSource (read : DocumentReader) (path : String) (found : Bool)
    (content : Except FileError Bytes) : Except Failure Settings :=
  if found then
    match textOf content with
    | .error e => .error (.file path e)
    | .ok text => parse text read
  else .error (.settings (.fileNotFound path))

/-- The string that a document gives to a key. -/
def stringIn? (key : String) (d : Toml.Definitions) : Option String :=
  match d.topLevel? key with
  | some (.value (.string s)) => some s
  | _ => none

/-- The truth value that a document gives to a key. -/
def booleanIn? (key : String) (d : Toml.Definitions) : Option Bool :=
  match d.topLevel? key with
  | some (.value (.boolean b)) => some b
  | _ => none

theorem exists_of_map_eq_ok {ε α β : Type} {f : α → β} {x : Except ε α} {b : β}
    (h : x.map f = .ok b) : ∃ a, x = .ok a ∧ f a = b := by
  cases x with
  | error e => cases h
  | ok a => exact ⟨a, rfl, Except.ok.inj h⟩

theorem eq_boolean_of_booleanAt {key : String} {x : Toml.Definition} {b : Bool}
    (h : booleanAt key x = .ok b) : x = .value (.boolean b) := by
  unfold booleanAt at h
  split at h
  · rw [Except.ok.inj h]
  · cases h

theorem eq_string_of_stringAt {key s : String} {x : Toml.Definition}
    (h : stringAt key x = .ok s) : x = .value (.string s) := by
  unfold stringAt at h
  split at h
  · rw [Except.ok.inj h]
  · cases h

/-- What the settings are after one more key, when nothing is wrong with it. -/
theorem takeIn_eq_ok {s made : Settings} {key : String} {x : Toml.Definition}
    (h : s.takeIn (key, x) = .ok made) :
    (key = "verbose" ∧ ∃ b, x = .value (.boolean b) ∧ made = { s with verbose := b }) ∨
    (key = "log_file" ∧ ∃ t, x = .value (.string t) ∧ made = { s with logFile := t }) ∨
    (key ≠ "verbose" ∧ key ≠ "log_file" ∧ made = s) := by
  simp only [takeIn] at h
  split at h
  · next hkey =>
    obtain ⟨b, hb, rfl⟩ := exists_of_map_eq_ok h
    exact .inl ⟨hkey, b, eq_boolean_of_booleanAt hb, rfl⟩
  · next hkey =>
    split at h
    · next hkey' =>
      obtain ⟨t, ht, rfl⟩ := exists_of_map_eq_ok h
      exact .inr (.inl ⟨hkey', t, eq_string_of_stringAt ht, rfl⟩)
    · next hkey' => exact .inr (.inr ⟨hkey, hkey', (Except.ok.inj h).symm⟩)

/-- A key that is refused is told with the type it should have. -/
theorem takeIn_eq_error {s : Settings} {key : String} {x : Toml.Definition} {e : Toml.Error}
    (h : s.takeIn (key, x) = .error e) :
    (key = "verbose" ∧ e = .wrongType key "boolean" ∧ ∀ b, x ≠ .value (.boolean b)) ∨
    (key = "log_file" ∧ e = .wrongType key "string" ∧ ∀ t, x ≠ .value (.string t)) := by
  simp only [takeIn] at h
  split at h
  · next hkey =>
    refine .inl ⟨hkey, ?_⟩
    unfold booleanAt at h
    split at h
    · cases h
    · next hx => exact ⟨(Except.error.inj h).symm, hx⟩
  · split at h
    · next hkey =>
      refine .inr ⟨hkey, ?_⟩
      unfold stringAt at h
      split at h
      · cases h
      · next hx => exact ⟨(Except.error.inj h).symm, hx⟩
    · cases h

/-- What is told of keys taken in one after another is the first one that is refused. -/
theorem exists_refused_of_foldlM {s : Settings} {keys : List (String × Toml.Definition)}
    {e : Toml.Error} (h : keys.foldlM takeIn s = .error e) :
    ∃ before entry behind made, keys = before ++ entry :: behind ∧
      before.foldlM takeIn s = .ok made ∧ made.takeIn entry = .error e := by
  induction keys generalizing s with
  | nil => cases h
  | cons entry keys ih =>
    rw [List.foldlM_cons] at h
    cases htaken : s.takeIn entry with
    | error e' =>
      rw [htaken] at h
      obtain rfl := Except.error.inj h
      exact ⟨[], entry, keys, s, rfl, rfl, htaken⟩
    | ok t =>
      rw [htaken] at h
      obtain ⟨before, refused, behind, made, rfl, hbefore, hrefused⟩ := ih h
      refine ⟨entry :: before, refused, behind, made, rfl, ?_, hrefused⟩
      rw [List.foldlM_cons, htaken]
      exact hbefore

/-- Of the keys of a document the first one with a wrong type is told, whatever stands behind it. -/
theorem ofDefinitions_eq_error {d : Toml.Definitions} {e : Toml.Error}
    (h : ofDefinitions d = .error e) :
    ∃ before key x behind made, d.topLevel = before ++ (key, x) :: behind ∧
      before.foldlM takeIn {} = .ok made ∧
      ((key = "verbose" ∧ e = .wrongType key "boolean" ∧ ∀ b, x ≠ .value (.boolean b)) ∨
        (key = "log_file" ∧ e = .wrongType key "string" ∧ ∀ t, x ≠ .value (.string t))) := by
  obtain ⟨before, ⟨key, x⟩, behind, made, hkeys, hbefore, hrefused⟩ := exists_refused_of_foldlM h
  exact ⟨before, key, x, behind, made, hkeys, hbefore, takeIn_eq_error hrefused⟩

/-- The settings have the values that a document gives, and the defaults for the others. -/
structure Shows (s : Settings) (d : Toml.Definitions) : Prop where
  logFile : s.logFile = (stringIn? "log_file" d).getD "lexer.logs"
  verbose : s.verbose = (booleanIn? "verbose" d).getD false

section Values

open Toml.Definitions

variable {s made : Settings} {entries : List (Toml.Path × Toml.Definition)} {current : Toml.Path}

/-- The value of a key is what the key has been defined to be last. -/
theorem Shows.takeIn (h : s.Shows ⟨entries, current⟩) {p : Toml.Path} {key : String}
    {x : Toml.Definition} (hp : name? p = some key) (hmade : s.takeIn (key, x) = .ok made) :
    made.Shows ⟨(p, x) :: entries, current⟩ := by
  obtain ⟨hlog, hverbose⟩ := h
  rcases takeIn_eq_ok hmade with ⟨rfl, b, rfl, rfl⟩ | ⟨rfl, t, rfl, rfl⟩ | ⟨hne, hne', rfl⟩
  · constructor
    · simpa [stringIn?, topLevel?_cons, hp] using hlog
    · simp [booleanIn?, topLevel?_cons, hp]
  · constructor
    · simp [stringIn?, topLevel?_cons, hp]
    · simpa [booleanIn?, topLevel?_cons, hp] using hverbose
  · constructor
    · simpa [stringIn?, topLevel?_cons, hp, hne'] using hlog
    · simpa [booleanIn?, topLevel?_cons, hp, hne] using hverbose

theorem shows_of_ofDefinitions {d : Toml.Definitions} (h : ofDefinitions d = .ok made) :
    made.Shows d := by
  obtain ⟨entries, current⟩ := d
  unfold ofDefinitions at h
  -- The latest definition is in front, and it is taken in last.
  induction entries generalizing made with
  | nil =>
    obtain rfl := Except.ok.inj h
    exact ⟨rfl, rfl⟩
  | cons entry entries ih =>
    obtain ⟨p, x⟩ := entry
    rw [topLevel_cons, List.foldlM_append] at h
    cases hbehind : (topLevel ⟨entries, current⟩).foldlM Settings.takeIn {} with
    | error e =>
      rw [hbehind] at h
      cases h
    | ok s =>
      rw [hbehind] at h
      cases hp : name? p with
      | some key =>
        simp only [hp, Option.map_some, Option.toList_some, List.foldlM_cons, List.foldlM_nil,
          bind_pure] at h
        exact (ih hbehind).takeIn hp h
      | none =>
        obtain rfl : s = made := by
          simpa [hp, bind, Except.bind, pure, Except.pure] using h
        obtain ⟨hlog, hverbose⟩ := ih hbehind
        constructor
        · simpa [stringIn?, topLevel?_cons, hp] using hlog
        · simpa [booleanIn?, topLevel?_cons, hp] using hverbose

end Values

/-- A text from which there are settings is a document, with their values or none. -/
theorem document_of_parse {read : DocumentReader} {text : List Char} {settings : Settings}
    (h : parse text read = .ok settings) : ∃ d, read text = .ok d ∧ settings.Shows d := by
  unfold parse at h
  cases hd : read text with
  | error e =>
    rw [hd] at h
    cases h
  | ok d =>
    cases hmade : ofDefinitions d with
    | error e =>
      simp only [hd, hmade, bind, Except.bind] at h
      cases h
    | ok made =>
      simp only [hd, hmade, bind, Except.bind] at h
      obtain rfl := Except.ok.inj h
      exact ⟨d, rfl, shows_of_ofDefinitions hmade⟩

theorem text_of_ofSource {read : DocumentReader} {path : String} {found : Bool}
    {content : Except FileError Bytes} {settings : Settings}
    (h : ofSource read path found content = .ok settings) :
    ∃ text, textOf content = .ok text ∧ parse text read = .ok settings := by
  unfold ofSource at h
  split at h
  · split at h
    · cases h
    · exact ⟨_, ‹_›, h⟩
  · cases h

section Source

variable {σ τ : Type} [FileStore σ] [FileStore τ] (read : DocumentReader) (files : σ) (other : τ)

/-- What loading the settings gives. -/
def loaded (named userDirectory : Option String) : Except Failure Settings :=
  ((load (m := StateM σ) named userDirectory read).run files).1

/-- The source that decides, if there is one: a file that is named does so even when it is missing,
others only when they exist. -/
def deciding? (named userDirectory : Option String) : Option String :=
  match named with
  | some path => some path
  | none => (sources none userDirectory).find? (FileStore.pathExists files)

/-- The definitions in the source that decides, if it holds any that can be read. -/
def document? (named userDirectory : Option String) : Option Toml.Definitions := do
  let path ← deciding? files named userDirectory
  let text ← (textOf (FileStore.read files path)).toOption
  (read text).toOption

/-- Two states of files show the same at a path. -/
structure SameAt (path : String) : Prop where
  pathExists : FileStore.pathExists files path = FileStore.pathExists other path
  read : FileStore.read files path = FileStore.read other path

theorem run_pathExists (path : String) : (FileAccess.pathExists (m := StateM σ) path).run files =
    (FileStore.pathExists files path, files) := rfl

theorem run_readTextFile (path : String) : (readTextFile (m := StateM σ) path).run files =
    (textOf (FileStore.read files path), files) := by
  rw [readTextFile, run_bind_of_run (run_readFile files path)]
  cases FileStore.read files path with
  | error e => rfl
  | ok bytes =>
    dsimp only [textOf]
    cases Utf8.decode? bytes <;> rfl

theorem run_loadFrom (path : String) : (loadFrom (m := StateM σ) path read).run files =
    (ofSource read path (FileStore.pathExists files path) (FileStore.read files path), files) := by
  unfold loadFrom
  rw [run_bind_of_run (run_pathExists files path)]
  unfold ofSource
  cases FileStore.pathExists files path with
  | false => rfl
  | true =>
    rw [if_pos rfl, if_pos rfl, run_bind_of_run (run_readTextFile files path)]
    cases textOf (FileStore.read files path) <;> rfl

theorem run_findFile (userDirectory : Option String) :
    (findFile (m := StateM σ) userDirectory).run files =
      (deciding? files none userDirectory, files) := by
  unfold findFile
  rw [run_bind_of_run (run_pathExists files fileName), deciding?, sources]
  cases hhere : FileStore.pathExists files fileName with
  | true =>
    rw [List.find?_cons_of_pos hhere]
    rfl
  | false =>
    rw [List.find?_cons_of_neg (by simp [hhere])]
    cases userDirectory with
    | none => rfl
    | some directory =>
      change (FileAccess.pathExists (m := StateM σ) (userFile directory) >>= fun found =>
        if found then pure (some (userFile directory)) else pure none).run files =
          ([userFile directory].find? (FileStore.pathExists files), files)
      rw [run_bind_of_run (run_pathExists files (userFile directory))]
      cases huser : FileStore.pathExists files (userFile directory) with
      | true =>
        rw [List.find?_cons_of_pos huser]
        rfl
      | false =>
        rw [List.find?_cons_of_neg (by simp [huser])]
        rfl

/-- The outcome is what is made of the source that decides, and the defaults where there is none. -/
theorem loaded_eq (named userDirectory : Option String) : loaded read files named userDirectory =
    match deciding? files named userDirectory with
    | none => .ok {}
    | some path =>
      ofSource read path (FileStore.pathExists files path) (FileStore.read files path) := by
  unfold loaded load
  cases named with
  | some path =>
    rw [run_loadFrom]
    rfl
  | none =>
    dsimp only
    rw [run_bind_of_run (run_findFile files userDirectory)]
    cases deciding? files none userDirectory with
    | none => rfl
    | some path =>
      dsimp only
      rw [run_loadFrom]

/-- States of the files that agree on the source that decides give one outcome. -/
theorem loaded_congr {named named' user user' : Option String}
    (hdeciding : deciding? files named user = deciding? other named' user')
    (hsame : ∀ path ∈ deciding? files named user, SameAt files other path) :
    loaded read files named user = loaded read other named' user' := by
  rw [loaded_eq, loaded_eq, ← hdeciding]
  cases hpath : deciding? files named user with
  | none => rfl
  | some path =>
    obtain ⟨hexists, hread⟩ := hsame path hpath
    dsimp only
    rw [hexists, hread]

theorem deciding?_here (h : FileStore.pathExists files fileName = true)
    (userDirectory : Option String) : deciding? files none userDirectory = some fileName :=
  List.find?_cons_of_pos h

theorem deciding?_user (h : FileStore.pathExists files fileName = false) (directory : String) :
    deciding? files none (some directory) =
      if FileStore.pathExists files (userFile directory) then some (userFile directory)
      else none := by
  have hbehind : deciding? files none (some directory) =
      [userFile directory].find? (FileStore.pathExists files) :=
    List.find?_cons_of_neg (by simp [h])
  rw [hbehind, List.find?_singleton]

/-- The value of a key is that of the file, or else the default. -/
theorem values_of_loaded {named userDirectory : Option String} {settings : Settings}
    (h : loaded read files named userDirectory = .ok settings) :
    let document := document? read files named userDirectory
    settings.logFile = (document.bind (stringIn? "log_file")).getD "lexer.logs" ∧
      settings.verbose = (document.bind (booleanIn? "verbose")).getD false := by
  rw [loaded_eq] at h
  unfold document?
  cases hpath : deciding? files named userDirectory with
  | none =>
    rw [hpath] at h
    cases h
    exact ⟨rfl, rfl⟩
  | some path =>
    rw [hpath] at h
    obtain ⟨text, htext, hsettings⟩ := text_of_ofSource h
    obtain ⟨d, hd, hlog, hverbose⟩ := document_of_parse hsettings
    simp [htext, hd, Except.toOption, hlog, hverbose]

end Source

/-- Overriding twice is overriding once. -/
theorem override_override (s : Settings) (logFile : Option String) (verbose : Bool) :
    (s.override logFile verbose).override logFile verbose = s.override logFile verbose := by
  cases logFile <;> simp [override]

/-- One source decides about the settings. Where a file is named, the outcome of loading is told by
whether that file exists and what reading it gives; where none is, and there is one in the working
directory, by that one alone, in whatever condition it is; and else by the user's file alone, or it
is the defaults. So states of the files that agree on the source that decides give one outcome. With
the command line on top, a log file that is given there comes before that of the deciding file and
this one before the default, and a run is verbose when either of the two says so. Nothing here
hangs on how documents are read. -/
theorem one_source_decides {σ τ : Type} [FileStore σ] [FileStore τ] (read : DocumentReader)
    (files : σ) (other : τ) :
    (∀ path user user', SameAt files other path →
      loaded read files (some path) user = loaded read other (some path) user') ∧
    (∀ user user', FileStore.pathExists files fileName = true → SameAt files other fileName →
      loaded read files none user = loaded read other none user') ∧
    (∀ directory, FileStore.pathExists files fileName = false →
      FileStore.pathExists other fileName = false → SameAt files other (userFile directory) →
      loaded read files none (some directory) = loaded read other none (some directory)) ∧
    (∀ named named' user user', deciding? files named user = deciding? other named' user' →
      (∀ path ∈ deciding? files named user, SameAt files other path) →
      loaded read files named user = loaded read other named' user') ∧
    (∀ named user, loaded read files named user =
      match deciding? files named user with
      | none => .ok {}
      | some path =>
        ofSource read path (FileStore.pathExists files path) (FileStore.read files path)) ∧
    (∀ (options : Command.Options) (env : Command.Environment) (settings : Settings),
      Command.settingsOf read options env files = .ok settings →
      let document := document? read files options.config env.userDirectory
      settings.logFile =
        options.logFile.getD ((document.bind (stringIn? "log_file")).getD "lexer.logs") ∧
      settings.verbose =
        (options.verbose || (document.bind (booleanIn? "verbose")).getD false)) ∧
    ∀ (settings : Settings) (logFile : Option String) (verbose : Bool),
      (settings.override logFile verbose).override logFile verbose =
        settings.override logFile verbose := by
  refine ⟨?_, ?_, ?_, ?_, loaded_eq read files, ?_, override_override⟩
  · intro path user user' hsame
    refine loaded_congr read files other rfl fun _ hpath => ?_
    obtain rfl := Option.some.inj hpath
    exact hsame
  · intro user user' hhere hsame
    have hother : FileStore.pathExists other fileName = true := hsame.pathExists ▸ hhere
    refine loaded_congr read files other ?_ ?_
    · rw [deciding?_here files hhere, deciding?_here other hother]
    · intro path hpath
      rw [deciding?_here files hhere] at hpath
      obtain rfl := Option.some.inj hpath
      exact hsame
  · intro directory hhere hother hsame
    refine loaded_congr read files other ?_ ?_
    · rw [deciding?_user files hhere, deciding?_user other hother, hsame.pathExists]
    · intro path hpath
      rw [deciding?_user files hhere] at hpath
      obtain ⟨-, rfl⟩ : _ ∧ userFile directory = path := by simpa using hpath
      exact hsame
  · exact fun named named' user user' => loaded_congr read files other
  · intro options env settings hsettings
    obtain ⟨own, hown, rfl⟩ : ∃ own, loaded read files options.config env.userDirectory = .ok own ∧
        own.override options.logFile options.verbose = settings :=
      exists_of_map_eq_ok hsettings
    obtain ⟨hlog, hverbose⟩ := values_of_loaded read files hown
    simp only [override, hlog, hverbose, Bool.or_comm options.verbose, and_self]

/-- A directory in the place of the file in the working directory is a failure, whatever the user's
file says; and a log file on the command line comes before the user's, which is verbose. -/
theorem one_source_decides_directory :
    let users : Disk.Tree := ({} : Disk.Tree).place ["mlc.toml", "mlc", "home"]
      (Utf8.encode "verbose = true\nlog_file = \"a.log\"")
    let blocked : Disk.Tree := users.makeDirectories ["mlc.toml"]
    let other : Disk.Tree := ({} : Disk.Tree).makeDirectories ["mlc.toml"]
    let options : Command.Options := ⟨"in", "out", some "b.log", false, none, false⟩
    let env : Command.Environment := { userDirectory := some "/home" }
    loaded Toml.parse blocked none (some "/home") = .error (.file "mlc.toml" .isADirectory) ∧
      loaded Toml.parse other none none = loaded Toml.parse blocked none (some "/home") ∧
      Command.settingsOf Toml.parse options env users =
        .ok { verbose := true, logFile := "b.log" } ∧
      ((document? Toml.parse users none (some "/home")).bind (booleanIn? "verbose")).getD false =
        true := by
  intro users blocked other options env
  have hhere : FileStore.pathExists blocked fileName = true := by decide +kernel
  have hsame : SameAt blocked other fileName := ⟨by decide +kernel, by decide +kernel⟩
  have hread : loaded Toml.parse blocked none none = .error (.file "mlc.toml" .isADirectory) := by
    decide +kernel
  obtain ⟨-, hdecides, -⟩ := one_source_decides Toml.parse blocked other
  obtain ⟨-, hstays, -⟩ := one_source_decides Toml.parse blocked blocked
  obtain ⟨-, -, -, -, -, hvalues, -⟩ := one_source_decides Toml.parse users other
  have hsettings : Command.settingsOf Toml.parse options env users =
      .ok { verbose := true, logFile := "b.log" } := by decide +kernel
  obtain ⟨-, hverbose⟩ := hvalues options env _ hsettings
  refine ⟨?_, (hdecides _ _ hhere hsame).symm, hsettings, hverbose.symm⟩
  rw [hstays _ none hhere ⟨rfl, rfl⟩, hread]

end Settings

end LexicalAnalyzer
