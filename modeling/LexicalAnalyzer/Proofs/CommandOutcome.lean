import LexicalAnalyzer.Command.Run
import LexicalAnalyzer.Proofs.ArtifactWriting
import LexicalAnalyzer.Proofs.SettingsLoading

/-!
How the command ends. There are three ways: both artifacts are written, the diagnostics of the
input are told, or one failure is told, and the exit code and the lines on the error stream say
which. Where there are no settings, only the sources of the settings have been looked at.
-/
namespace LexicalAnalyzer

namespace Command

/-- The text of a message that is no event. -/
def Message.line? : Message → Option String
  | .event _ => none
  | .line text => some text

/-- What is said besides the events. -/
def Outcome.lines (o : Outcome) : List String := o.messages.filterMap Message.line?

/-- A filter thins out events only. -/
theorem Outcome.lines_filter (f : LogFilter) (o : Outcome) : (o.filter f).lines = o.lines := by
  rw [lines, lines, filter, List.filterMap_filter]
  congr 1
  funext message
  cases message with
  | event e => simp [Message.line?]
  | line text => rfl

theorem filterMap_line?_events (events : List Event) :
    (events.map Message.event).filterMap Message.line? = [] := by
  rw [List.filterMap_map, List.filterMap_eq_nil_iff]
  exact fun _ _ => rfl

theorem filterMap_line?_refusal (a : Analysis) (f : Failure) :
    (refusal a f).filterMap Message.line? = a.report.toList.map (·.text) := by
  have htext : Message.line? ∘ (fun d : Diagnostic => .line d.text) = fun d => some d.text := rfl
  rw [refusal, List.filterMap_append, List.filterMap_map, htext, List.filterMap_eq_map']
  simp [Message.line?]

section Endings

variable {σ : Type} [FileStore σ] (read : Settings.DocumentReader) (options : Options)
  (env : Environment) (files : σ)

/-- The settings of a run, if they can be loaded. -/
def settingsOf : Except Failure Settings :=
  ((Settings.load (m := StateM σ) options.config env.userDirectory read).run files).1.map
    (·.override options.logFile options.verbose)

/-- There are settings, and the input can be read and is analyzed. -/
structure Analyzed (settings : Settings) (a : Analysis) : Prop where
  settings : settingsOf read options env files = .ok settings
  input : ∃ bytes, FileStore.read files options.input = .ok bytes ∧ Analysis.ofBytes bytes = .ok a

/-- There is something wrong with the input. -/
def Diagnosed (a : Analysis) : Prop :=
  (∃ settings, Analyzed read options env files settings a) ∧ a.report.toList ≠ []

/-- The input is clean and both artifacts are written. -/
def Delivered (after : σ) : Prop :=
  ∃ settings a log written, Analyzed read options env files settings a ∧ a.report.toList = [] ∧
    Artifact.logText a = .ok log ∧
    FileStore.write files options.output (Utf8.encode (Artifact.resultText a)) = .ok written ∧
    FileStore.write written settings.logFile (Utf8.encode log) = .ok after

/-- What is told of a failure, with what lies behind it: there are no settings, or the input cannot
be read, or an artifact cannot be written. -/
inductive Fails : List String → Prop where
  | settings {f : Failure} (h : settingsOf read options env files = .error f) : Fails f.chain
  | input {settings : Settings} {e : FileError}
      (h : settingsOf read options env files = .ok settings)
      (hread : FileStore.read files options.input = .error e) :
      Fails [s!"failed to process '{options.input}'", s!"cannot access '{options.input}'",
        e.message]
  | output {settings : Settings} {a : Analysis} {e : FileError}
      (h : Analyzed read options env files settings a) (hclean : a.report.toList = [])
      (hwrite : FileStore.write files options.output (Utf8.encode (Artifact.resultText a)) =
        .error e) :
      Fails [s!"failed to process '{options.input}'", s!"cannot access '{options.output}'",
        e.message]
  | log {settings : Settings} {a : Analysis} {log : String} {written : σ} {e : FileError}
      (h : Analyzed read options env files settings a) (hclean : a.report.toList = [])
      (hlog : Artifact.logText a = .ok log)
      (hresult : FileStore.write files options.output (Utf8.encode (Artifact.resultText a)) =
        .ok written)
      (hwrite : FileStore.write written settings.logFile (Utf8.encode log) = .error e) :
      Fails [s!"failed to process '{options.input}'", s!"cannot access '{settings.logFile}'",
        e.message]

/-- The exit code, the lines and the files of each way to end. -/
inductive Ends : Outcome → σ → Prop where
  | delivered {o : Outcome} {after : σ} (h : Delivered read options env files after)
      (hcode : o.exitCode = 0) (hlines : o.lines = []) : Ends o after
  | diagnosed {o : Outcome} {a : Analysis} (h : Diagnosed read options env files a)
      (hcode : o.exitCode = 1) (hlines : o.lines = a.report.toList.map (·.text)) : Ends o files
  | failed {o : Outcome} {chain : List String} {after : σ} (h : Fails read options env files chain)
      (hcode : o.exitCode = 1) (hlines : o.lines = ["error: " ++ ": ".intercalate chain]) :
      Ends o after

end Endings

section Running

variable {σ : Type} [FileStore σ] {read : Settings.DocumentReader} {options : Options}
  {env : Environment} {files after : σ}

theorem process_of_error {settings : Settings} {f : Failure} {events : List Event}
    (h : (Session.run (m := StateM σ) ⟨settings⟩ options.input options.output).run files =
      (⟨.error f, events⟩, after)) :
    let processed := (process (m := StateM σ) settings options).run files
    processed.2 = after ∧ processed.1.exitCode = 1 ∧ processed.1.lines =
      ["error: " ++ ": ".intercalate (s!"failed to process '{options.input}'" :: f.chain)] := by
  simp only [process, run_bind_of_run h]
  refine ⟨rfl, rfl, ?_⟩
  change List.filterMap _ (_ ++ _) = _
  rw [List.filterMap_append, filterMap_line?_events]
  rfl

theorem process_of_hasErrors {settings : Settings} {a : Analysis} {events : List Event}
    (h : (Session.run (m := StateM σ) ⟨settings⟩ options.input options.output).run files =
      (⟨.ok a, events⟩, after)) (he : a.hasErrors = true) :
    let processed := (process (m := StateM σ) settings options).run files
    processed.2 = after ∧ processed.1.exitCode = 1 ∧
      processed.1.lines = a.report.toList.map (·.text) := by
  simp only [process, run_bind_of_run h, Analysis.requireClean_eq, he]
  refine ⟨rfl, rfl, ?_⟩
  change List.filterMap _ (_ ++ _) = _
  rw [List.filterMap_append, filterMap_line?_events, filterMap_line?_refusal]
  rfl

theorem process_of_clean {settings : Settings} {a : Analysis} {events : List Event}
    (h : (Session.run (m := StateM σ) ⟨settings⟩ options.input options.output).run files =
      (⟨.ok a, events⟩, after)) (he : a.hasErrors = false) :
    let processed := (process (m := StateM σ) settings options).run files
    processed.2 = after ∧ processed.1.exitCode = 0 ∧ processed.1.lines = [] := by
  simp only [process, run_bind_of_run h, Analysis.requireClean_eq, he]
  exact ⟨rfl, rfl, filterMap_line?_events events⟩

theorem Ends.filter {o : Outcome} (h : Ends read options env files o after) (f : LogFilter) :
    Ends read options env files (o.filter f) after := by
  cases h with
  | delivered h hcode hlines => exact .delivered h hcode (by rw [o.lines_filter, hlines])
  | diagnosed h hcode hlines => exact .diagnosed h hcode (by rw [o.lines_filter, hlines])
  | failed h hcode hlines => exact .failed h hcode (by rw [o.lines_filter, hlines])

/-- Over a clean input the command ends as the writing of the artifacts goes. -/
theorem process_ends_of_clean {settings : Settings} {a : Analysis} {events : List Event}
    {answer : Except Failure Unit} (h : Analyzed read options env files settings a)
    (he : a.hasErrors = false)
    (hgoes : Session.WriteGoes ⟨settings⟩ a options.output files answer after)
    (hrun : (Session.run (m := StateM σ) ⟨settings⟩ options.input options.output).run files =
      (⟨answer.map fun () => a, events⟩, after)) :
    let processed := (process (m := StateM σ) settings options).run files
    Ends read options env files processed.1 processed.2 := by
  have hclean : a.report.toList = [] := (Report.hasErrors_eq_false_iff _).mp he
  obtain ⟨log, hlog, hboth⟩ := hgoes
  cases hboth with
  | refused hresult =>
    obtain ⟨-, hcode, hlines⟩ := process_of_error hrun
    exact .failed (.output h hclean (write_eq_error_of_run hresult).1) hcode hlines
  | withdrawn hresult hwrite =>
    obtain ⟨-, hcode, hlines⟩ := process_of_error hrun
    exact .failed (.log h hclean hlog (write_eq_ok_of_run hresult) (write_eq_error_of_run hwrite).1)
      hcode hlines
  | both hresult hwrite =>
    obtain ⟨rfl, hcode, hlines⟩ := process_of_clean hrun he
    exact .delivered ⟨settings, a, log, _, h, hclean, hlog, write_eq_ok_of_run hresult,
      write_eq_ok_of_run hwrite⟩ hcode hlines

theorem process_ends {settings : Settings} (h : settingsOf read options env files = .ok settings) :
    let processed := (process (m := StateM σ) settings options).run files
    Ends read options env files processed.1 processed.2 := by
  intro processed
  obtain ⟨⟨answer, events⟩, after, hrun⟩ :=
    exists_run (Session.run ⟨settings⟩ options.input options.output) files
  have hgoes := Session.run_goes ⟨settings⟩ options.input options.output files
  simp only [hrun] at hgoes
  cases hgoes with
  | unreadable hread =>
    obtain ⟨-, hcode, hlines⟩ := process_of_error hrun
    exact .failed (.input h hread) hcode hlines
  | @diagnosed bytes a hread ha he =>
    obtain ⟨hafter, hcode, hlines⟩ := process_of_hasErrors hrun he
    rw [hafter]
    refine .diagnosed ⟨⟨settings, h, bytes, hread, ha⟩, fun hclean => ?_⟩ hcode hlines
    rw [Analysis.hasErrors, (Report.hasErrors_eq_false_iff _).mpr hclean] at he
    cases he
  | failed hread ha he hwrite =>
    exact process_ends_of_clean ⟨h, _, hread, ha⟩ he hwrite hrun
  | written hread ha he hwrite =>
    exact process_ends_of_clean ⟨h, _, hread, ha⟩ he hwrite hrun

theorem execute_ends (r : Readers) (options : Options) (env : Environment) (files : σ) :
    let ran := (execute (m := StateM σ) options env r).run files
    Ends r.document options env files ran.1 ran.2 := by
  intro ran
  obtain ⟨answer, _, -, hload, -, -⟩ :=
    Settings.looksOnly_load r.document options.config env.userDirectory files []
  have hsettings : settingsOf r.document options env files =
      answer.map (·.override options.logFile options.verbose) := by
    rw [settingsOf, hload]
  cases answer with
  | error f =>
    simp only [ran, execute, run_bind_of_run hload]
    exact .failed (.settings hsettings) rfl rfl
  | ok settings =>
    have hends := (process_ends hsettings).filter
      (filterOf env (settings.override options.logFile options.verbose) r)
    simp only [ran, execute, run_bind_of_run hload]
    exact hends

/-- Where there are no settings, nothing is asked of the files but for the sources of settings. -/
theorem execute_of_no_settings {r : Readers} {f : Failure}
    (h : settingsOf r.document options env files = .error f) :
    ∃ asked, (execute (m := StateM (Journal σ)) options env r).run ⟨files, []⟩ =
        (((execute (m := StateM σ) options env r).run files).1, ⟨files, asked⟩) ∧
      ((execute (m := StateM σ) options env r).run files).2 = files ∧
      ∀ r ∈ asked, Journal.Looks (Settings.sources options.config env.userDirectory) r := by
  obtain ⟨answer, asked, -, hload, hkept, hasked⟩ :=
    Settings.looksOnly_load r.document options.config env.userDirectory files []
  rw [settingsOf, hload] at h
  cases answer with
  | ok settings => cases h
  | error f =>
    refine ⟨asked, ?_, ?_, hasked⟩
    · simp only [execute, run_bind_of_run hload, run_bind_of_run hkept]
      rfl
    · simp only [execute, run_bind_of_run hload]
      rfl

theorem Analyzed.unique {settings settings' : Settings} {a a' : Analysis}
    (h : Analyzed read options env files settings a)
    (h' : Analyzed read options env files settings' a') :
    settings = settings' ∧ a = a' := by
  obtain ⟨hs, bytes, hread, ha⟩ := h
  obtain ⟨hs', bytes', hread', ha'⟩ := h'
  obtain rfl := Except.ok.inj (hread.symm.trans hread')
  exact ⟨Except.ok.inj (hs.symm.trans hs'), Except.ok.inj (ha.symm.trans ha')⟩

theorem Diagnosed.not_delivered {a : Analysis} (h : Diagnosed read options env files a) :
    ¬ Delivered read options env files after := by
  rintro ⟨settings, a', _, _, hanalyzed', hclean, -⟩
  obtain ⟨⟨_, hanalyzed⟩, hne⟩ := h
  obtain ⟨-, rfl⟩ := hanalyzed.unique hanalyzed'
  exact hne hclean

theorem Fails.not_diagnosed {chain : List String} (h : Fails read options env files chain)
    (a : Analysis) : ¬ Diagnosed read options env files a := by
  rintro ⟨⟨settings, hanalyzed⟩, hne⟩
  obtain ⟨bytes, hbytes, _⟩ := hanalyzed.input
  cases h with
  | settings h => cases h.symm.trans hanalyzed.settings
  | input h hread => cases hread.symm.trans hbytes
  | output h hclean hwrite =>
    obtain ⟨-, rfl⟩ := h.unique hanalyzed
    exact hne hclean
  | log h hclean hlog hresult hwrite =>
    obtain ⟨-, rfl⟩ := h.unique hanalyzed
    exact hne hclean

theorem Fails.not_delivered {chain : List String} (h : Fails read options env files chain)
    (after : σ) : ¬ Delivered read options env files after := by
  rintro ⟨settings, a, log, written, hanalyzed, -, hlog, hresult, hwrite⟩
  obtain ⟨bytes, hbytes, _⟩ := hanalyzed.input
  cases h with
  | settings h => cases h.symm.trans hanalyzed.settings
  | input h hread => cases hread.symm.trans hbytes
  | output h _ hresult' =>
    obtain ⟨-, rfl⟩ := h.unique hanalyzed
    cases hresult.symm.trans hresult'
  | log h _ hlog' hresult' hwrite' =>
    obtain ⟨rfl, rfl⟩ := h.unique hanalyzed
    obtain rfl := Except.ok.inj (hlog.symm.trans hlog')
    obtain rfl := Except.ok.inj (hresult.symm.trans hresult')
    cases hwrite.symm.trans hwrite'

namespace Ends

variable {o : Outcome} {a : Analysis}

theorem exitCode_eq_zero_iff (h : Ends read options env files o after) :
    o.exitCode = 0 ↔ ∃ written, Delivered read options env files written := by
  cases h with
  | delivered h hcode => exact iff_of_true hcode ⟨after, h⟩
  | diagnosed h hcode =>
    refine iff_of_false (by simp [hcode]) ?_
    rintro ⟨_, hdelivered⟩
    exact h.not_delivered hdelivered
  | failed h hcode =>
    refine iff_of_false (by simp [hcode]) ?_
    rintro ⟨_, hdelivered⟩
    exact h.not_delivered _ hdelivered

theorem of_diagnosed (h : Ends read options env files o after)
    (ha : Diagnosed read options env files a) :
    o.exitCode = 1 ∧ o.lines = a.report.toList.map (·.text) ∧ after = files := by
  cases h with
  | delivered h => exact absurd h ha.not_delivered
  | failed h => exact absurd ha (h.not_diagnosed a)
  | diagnosed h hcode hlines =>
    obtain ⟨⟨_, hanalyzed⟩, _⟩ := ha
    obtain ⟨⟨_, hanalyzed'⟩, _⟩ := h
    obtain ⟨-, rfl⟩ := hanalyzed.unique hanalyzed'
    exact ⟨hcode, hlines, rfl⟩

theorem of_failure (h : Ends read options env files o after)
    (hdelivered : ¬ ∃ written, Delivered read options env files written)
    (hdiagnosed : ¬ ∃ a, Diagnosed read options env files a) :
    o.exitCode = 1 ∧ ∃ chain, Fails read options env files chain ∧
      o.lines = ["error: " ++ ": ".intercalate chain] := by
  cases h with
  | delivered h => exact absurd ⟨after, h⟩ hdelivered
  | diagnosed h => exact absurd ⟨_, h⟩ hdiagnosed
  | failed h hcode hlines => exact ⟨hcode, _, h, hlines⟩

end Ends

end Running

/-- By its first letter a diagnostic is told from the report of a failure. -/
theorem head?_text (d : Diagnostic) : d.text.toList.head? = some 'E' := by
  change ("Error at " ++ d.position.text ++ ": " ++ d.message).toList.head? = some 'E'
  simp [String.toList_append]

theorem head?_errorText (chain : List String) :
    ("error: " ++ ": ".intercalate chain).toList.head? = some 'e' := by
  simp [String.toList_append]

/-- How a command that is to carry out a run ends. The exit code is zero just when there are
settings, the input is read and has no diagnostics, and both artifacts are written. An input with
diagnostics makes the exit code one; its diagnostics are said, each once and in their order, without
any error, and the files are as before. Any other failure makes the exit code one and says one error
with what lies behind it, and no diagnostic. Where there are no settings, nothing has been asked of
the files but for looking at the sources of settings. All this is so whatever reads the arguments,
the settings and the filter. -/
theorem run_outcomes {σ : Type} [FileStore σ] (r : Readers) {arguments : List String}
    {env : Environment} {options : Options} (h : r.arguments arguments env = .ok (.run options))
    (files : σ) :
    let ran := (run (m := StateM σ) arguments env r).run files
    (ran.1.exitCode = 0 ↔ ∃ after, Delivered r.document options env files after) ∧
    (∀ a, Diagnosed r.document options env files a →
      ran.1.exitCode = 1 ∧ ran.1.lines = a.report.toList.map (·.text) ∧
      (∀ line ∈ ran.1.lines, ¬ "error:".toList <+: line.toList) ∧ ran.2 = files) ∧
    ((¬ ∃ after, Delivered r.document options env files after) →
      (¬ ∃ a, Diagnosed r.document options env files a) →
      ran.1.exitCode = 1 ∧ ∃ chain, Fails r.document options env files chain ∧
        ran.1.lines = ["error: " ++ ": ".intercalate chain] ∧
        ∀ d : Diagnostic, d.text ∉ ran.1.lines) ∧
    ∀ f, settingsOf r.document options env files = .error f → ran.2 = files ∧
      ∃ asked, (run (m := StateM (Journal σ)) arguments env r).run ⟨files, []⟩ =
          (ran.1, ⟨files, asked⟩) ∧
        ∀ q ∈ asked, Journal.Looks (Settings.sources options.config env.userDirectory) q := by
  have hrun {m : Type → Type} [Monad m] [FileAccess m] :
      run (m := m) arguments env r = execute options env r := by
    simp only [run, h]
  intro ran
  have hends : Ends r.document options env files ran.1 ran.2 := by
    simp only [ran, hrun]
    exact execute_ends r options env files
  refine ⟨hends.exitCode_eq_zero_iff, ?_, ?_, ?_⟩
  · intro a hdiagnosed
    obtain ⟨hcode, hlines, hfiles⟩ := hends.of_diagnosed hdiagnosed
    refine ⟨hcode, hlines, ?_, hfiles⟩
    rintro line hline ⟨more, hmore⟩
    rw [hlines] at hline
    obtain ⟨d, _, rfl⟩ := List.mem_map.mp hline
    have hhead := head?_text d
    simp [← hmore] at hhead
  · intro hdelivered hdiagnosed
    obtain ⟨hcode, chain, hfails, hlines⟩ := hends.of_failure hdelivered hdiagnosed
    refine ⟨hcode, chain, hfails, hlines, fun d hd => ?_⟩
    rw [hlines, List.mem_singleton] at hd
    have hhead := head?_text d
    rw [hd, head?_errorText] at hhead
    cases hhead
  · intro f hf
    simp only [ran, hrun]
    obtain ⟨asked, hkept, hfiles, hasked⟩ := execute_of_no_settings hf
    exact ⟨hfiles, asked, hkept, hasked⟩

/-- A clean input, one with a stray character, a missing one, and settings that are missing. -/
theorem run_outcomes_each :
    let files : Disk.Tree := { entries := [(["in.mlc"], .file (Utf8.encode "x")),
      (["stray.mlc"], .file (Utf8.encode "x @ y"))] }
    let options (input : String) (config : Option String) : Options :=
      ⟨input, "out.txt", none, false, config, false⟩
    let outcome (arguments : List String) :=
      (run (m := StateM Disk.Tree) arguments {}).run files
    (∃ after, Delivered Toml.parse (options "in.mlc" none) {} files after) ∧
    (∃ a, Diagnosed Toml.parse (options "stray.mlc" none) {} files a ∧
      (outcome ["stray.mlc", "out.txt"]).1.lines = a.report.toList.map (·.text) ∧
      (outcome ["stray.mlc", "out.txt"]).2 = files) ∧
    (∃ chain, Fails Toml.parse (options "none.mlc" none) {} files chain ∧
      (outcome ["none.mlc", "out.txt"]).1.lines = ["error: " ++ ": ".intercalate chain]) ∧
    (outcome ["-c", "none.toml", "in.mlc", "out.txt"]).2 = files := by
  intro files options outcome
  have hparse : ∀ input ∈ ["in.mlc", "stray.mlc", "none.mlc"],
      parse [input, "out.txt"] {} = .ok (.run (options input none)) := by decide +kernel
  have hconfig : parse ["-c", "none.toml", "in.mlc", "out.txt"] {} =
      .ok (.run (options "in.mlc" (some "none.toml"))) := by decide +kernel
  have hsettings : settingsOf Toml.parse (options "stray.mlc" none) {} files = .ok {} := by
    decide +kernel
  refine ⟨?_, ?_, ?_, ?_⟩
  · have hzero : (outcome ["in.mlc", "out.txt"]).1.exitCode = 0 := by decide +kernel
    exact (run_outcomes readers (hparse "in.mlc" (by simp)) files).1.mp hzero
  · have hread : FileStore.read files "stray.mlc" = .ok (Utf8.encode "x @ y") := by decide +kernel
    obtain ⟨a, ha, _⟩ := Analysis.ofText_accountsFor (Utf8.decodeLossy (Utf8.encode "x @ y"))
    have hstray : (Analysis.ofText (Utf8.decodeLossy (Utf8.encode "x @ y"))).toOption.all
        (fun a => !a.report.toList.isEmpty) = true := by decide +kernel
    have hne : a.report.toList ≠ [] := by
      rw [ha] at hstray
      simpa [Except.toOption] using hstray
    have hdiagnosed : Diagnosed Toml.parse (options "stray.mlc" none) {} files a :=
      ⟨⟨{}, hsettings, _, hread, ha⟩, hne⟩
    obtain ⟨_, hlines, _, hfiles⟩ :=
      (run_outcomes readers (hparse "stray.mlc" (by simp)) files).2.1 a hdiagnosed
    exact ⟨a, hdiagnosed, hlines, hfiles⟩
  · have hread : FileStore.read files "none.mlc" = .error .notFound := by decide +kernel
    have hunread {settings : Settings} {a : Analysis} :
        ¬ Analyzed Toml.parse (options "none.mlc" none) {} files settings a := by
      rintro ⟨_, bytes, hbytes, _⟩
      cases hread.symm.trans hbytes
    have hdelivered : ¬ ∃ after, Delivered Toml.parse (options "none.mlc" none) {} files after := by
      rintro ⟨_, _, _, _, _, hanalyzed, _⟩
      exact hunread hanalyzed
    have hdiagnosed : ¬ ∃ a, Diagnosed Toml.parse (options "none.mlc" none) {} files a := by
      rintro ⟨_, ⟨_, hanalyzed⟩, _⟩
      exact hunread hanalyzed
    obtain ⟨_, chain, hfails, hlines, _⟩ :=
      (run_outcomes readers (hparse "none.mlc" (by simp)) files).2.2.1 hdelivered hdiagnosed
    exact ⟨chain, hfails, hlines⟩
  · have hmissing : settingsOf Toml.parse (options "in.mlc" (some "none.toml")) {} files =
        .error (.settings (.fileNotFound "none.toml")) := by decide +kernel
    exact ((run_outcomes readers hconfig files).2.2.2 _ hmissing).1

end Command

end LexicalAnalyzer
