import LexicalAnalyzer.Proofs.ArtifactDecoding
import LexicalAnalyzer.Proofs.Diagnosis
import LexicalAnalyzer.Proofs.StoreLaws
import LexicalAnalyzer.Session

/-!
What a session leaves in a store of files. Writing the artifacts can go in three ways: the result is
refused, or the log is refused and the result is to be removed, or both are written. That much is so
whatever the operations on the files do. From the laws of a store follows what a run leaves behind:
no artifact when it fails, both of them when it succeeds and their paths lead to different places.
Where both paths lead to one place the log replaces the result.
-/
namespace LexicalAnalyzer

theorem Utf8.encode_injective : Function.Injective Utf8.encode := by
  intro s t h
  exact String.toByteArray_inj.mp (ByteArray.ext (Array.toList_inj.mp h))

/-- A log begins with a bracket, of which there is none in the first line of a result. -/
theorem Analysis.AccountsFor.resultText_ne {a : Analysis} {ts : List Token} (h : a.AccountsFor ts)
    (hts : ∀ t ∈ ts, t.Sound) {log : String} (hlog : Artifact.logText a = .ok log) :
    Artifact.resultText a ≠ log := by
  have hbracket : ∀ s ∈ a.vocabulary.numbers.entries, '[' ∉ s.toList := by
    intro s hs
    obtain ⟨t, ht, hk, rfl⟩ := (h.mem_numbers s).mp hs
    exact ((hts t ht).isLexeme (by simp [hk])).not_mem_of_invalid (by decide)
  have hresult : (Artifact.resultText a).toList.head? ≠ some '[' := by
    rw [toList_resultText]
    cases hnumbers : a.vocabulary.numbers.entries with
    | nil => simp
    | cons s more =>
      -- The text begins with a number, or with the space behind it should the number be empty.
      have hs : '[' ∉ s.toList := hbracket s (by simp [hnumbers])
      cases hchars : s.toList with
      | nil => simp [hchars]
      | cons c cs =>
        have hc : c ≠ '[' := by
          rintro rfl
          exact hs (by simp [hchars])
        simp [hchars, hc]
  have hhead : log.toList.head? = some '[' := by
    rw [h.logText_eq] at hlog
    obtain rfl := Except.ok.inj hlog
    simp [Decoded.logLines, String.toList_join, String.toList_append]
  intro he
  exact hresult (he ▸ hhead)

theorem resultText_ne_logText {text : List Char} {a : Analysis} (ha : Analysis.ofText text = .ok a)
    {log : String} (hlog : Artifact.logText a = .ok log) : Artifact.resultText a ≠ log :=
  (Analysis.accountsFor_of_ofText ha).resultText_ne
    (sound_of_mem_scanLines 1 .normal {} (lines text)) hlog

namespace Session

section Answers

variable {σ : Type} [FileAccess (StateM σ)]

/-- How the writing of a result and a log goes, whatever the operations on the files do: a refusal
too may leave changes. When the log is refused the result is to be removed, and what comes of that
is not told. -/
inductive Goes (output logFile : String) (result log : Bytes) (files : σ) :
    Except Failure Unit → σ → Prop where
  | refused {e : FileError} {after : σ}
      (h : (FileAccess.writeFile (m := StateM σ) output result).run files = (.error e, after)) :
      Goes output logFile result log files (.error (.file output e)) after
  | withdrawn {e : FileError} {written behind after : σ}
      (hresult : (FileAccess.writeFile (m := StateM σ) output result).run files =
        (.ok (), written))
      (h : (FileAccess.writeFile (m := StateM σ) logFile log).run written = (.error e, behind))
      (hremove : ((FileAccess.removeFile (m := StateM σ) output).run behind).2 = after) :
      Goes output logFile result log files (.error (.file logFile e)) after
  | both {written after : σ}
      (hresult : (FileAccess.writeFile (m := StateM σ) output result).run files =
        (.ok (), written))
      (h : (FileAccess.writeFile (m := StateM σ) logFile log).run written = (.ok (), after)) :
      Goes output logFile result log files (.ok ()) after

theorem writeBoth_goes (output logFile result log : String) (files : σ) :
    let went := (writeBoth (m := StateM σ) output logFile result log).run files
    Goes output logFile (Utf8.encode result) (Utf8.encode log) files went.1 went.2 := by
  obtain ⟨answer, written, hresult⟩ :=
    exists_run (FileAccess.writeFile output (Utf8.encode result)) files
  simp only [writeBoth, run_bind_of_run hresult]
  cases answer with
  | error e => exact .refused hresult
  | ok =>
    obtain ⟨answer, behind, hlog⟩ :=
      exists_run (FileAccess.writeFile logFile (Utf8.encode log)) written
    simp only [run_bind_of_run hlog]
    cases answer with
    | error e => exact .withdrawn hresult hlog rfl
    | ok => exact .both hresult hlog

variable {a : Analysis} {output : String} {files : σ}

/-- An analysis with diagnostics is refused before anything is written. -/
theorem run_write_of_hasErrors (s : Session) (h : a.hasErrors = true) (output : String)
    (files : σ) : (s.write (m := StateM σ) a output).run files =
      (⟨.error (.lexical a.report.toList.length), []⟩, files) := by
  have hclean : a.requireClean = .error (.lexical a.report.toList.length) := by
    simp [Analysis.requireClean_eq, h]
  rw [write, hclean]
  rfl

theorem hasErrors_of_write {s : Session}
    (h : ((s.write (m := StateM σ) a output).run files).1.result = .ok ()) :
    a.hasErrors = false := by
  cases he : a.hasErrors with
  | false => rfl
  | true =>
    rw [s.run_write_of_hasErrors he] at h
    cases h

/-- How the writing of the artifacts of a clean analysis goes. -/
def WriteGoes (s : Session) (a : Analysis) (output : String) (files : σ)
    (answer : Except Failure Unit) (after : σ) : Prop :=
  ∃ log, Artifact.logText a = .ok log ∧ Goes output s.settings.logFile
    (Utf8.encode (Artifact.resultText a)) (Utf8.encode log) files answer after

/-- Telling how the artifacts are written adds events and nothing else. -/
theorem write_goes (s : Session) {text : List Char} (ha : Analysis.ofText text = .ok a)
    (he : a.hasErrors = false) (output : String) (files : σ) :
    let wrote := (s.write (m := StateM σ) a output).run files
    s.WriteGoes a output files wrote.1.result wrote.2 := by
  obtain ⟨log, hlog⟩ : ∃ log, Artifact.logText a = .ok log :=
    ⟨_, (Analysis.accountsFor_of_ofText ha).logText_eq⟩
  have hclean : a.requireClean = .ok () := by
    simp [Analysis.requireClean_eq, he]
  obtain ⟨answer, after, hboth⟩ :=
    exists_run (writeBoth output s.settings.logFile (Artifact.resultText a) log) files
  have hgoes := writeBoth_goes output s.settings.logFile (Artifact.resultText a) log files
  rw [hboth] at hgoes
  refine ⟨log, hlog, ?_⟩
  simp only [write, hclean, hlog, run_bind_of_run hboth]
  cases answer <;> exact hgoes

end Answers

section Writing

open LawfulStore

variable {σ : Type} [FileStore σ] {output logFile : String} {result log : Bytes} {files after : σ}

/-- Where both are written, the second write starts from what the first one leaves. -/
theorem Goes.writes (h : Goes output logFile result log files (.ok ()) after) :
    ∃ written, FileStore.write files output result = .ok written ∧
      FileStore.write written logFile log = .ok after := by
  cases h with
  | both hresult hlog => exact ⟨_, write_eq_ok_of_run hresult, write_eq_ok_of_run hlog⟩

variable [LawfulStore σ]

/-- Nothing lies any more where a path leads, and all else is as it was. -/
structure Withdrawn (path : String) (files after : σ) : Prop where
  place : ∀ other, place? after other = place? files other
  absent : FileStore.pathExists after path = false
  gone : ∃ l, place? files path = some l ∧ at? after l = none ∧
    ∀ k ≠ l, at? after k = at? files k

/-- How the writing of a result and a log can end, and with which files. -/
inductive Ends (output logFile : String) (result log : Bytes) (files : σ) :
    Except Failure Unit → σ → Prop where
  | refused {e : FileError} (h : FileStore.write files output result = .error e) :
      Ends output logFile result log files (.error (.file output e)) files
  | withdrawn {e : FileError} {written after : σ}
      (hresult : FileStore.write files output result = .ok written)
      (h : FileStore.write written logFile log = .error e)
      (hw : Withdrawn output files after) :
      Ends output logFile result log files (.error (.file logFile e)) after
  | both {written after : σ} (hresult : FileStore.write files output result = .ok written)
      (h : FileStore.write written logFile log = .ok after) :
      Ends output logFile result log files (.ok ()) after

theorem withdrawn_of_remove [LawfulRemoval σ] {files written after : σ} {path : String}
    {content : Bytes} (hwrite : FileStore.write files path content = .ok written)
    (hremove : FileStore.remove written path = .ok after) : Withdrawn path files after := by
  obtain ⟨l, hl, _, hrest⟩ := at?_write hwrite
  obtain ⟨k, hk, hgone, hrest'⟩ := LawfulRemoval.at?_remove hremove
  rw [place?_write hwrite, hl] at hk
  obtain rfl := Option.some.inj hk
  have hplace : ∀ other, place? after other = place? files other := by
    intro other
    rw [LawfulRemoval.place?_remove hremove, place?_write hwrite]
  refine ⟨hplace, ?_, l, hl, hgone, fun j hj => by rw [hrest' j hj, hrest j hj]⟩
  by_contra hexists
  obtain ⟨j, e, hj, hfound⟩ := pathExists_eq_true (eq_true_of_ne_false hexists)
  rw [hplace, hl] at hj
  obtain rfl := Option.some.inj hj
  rw [hgone] at hfound
  cases hfound

/-- In a store a refused write changes nothing, and the result can be removed again. -/
theorem Goes.ends [LawfulRemoval σ] {answer : Except Failure Unit}
    (h : Goes output logFile result log files answer after) :
    Ends output logFile result log files answer after := by
  cases h with
  | refused hrefused =>
    obtain ⟨hresult, rfl⟩ := write_eq_error_of_run hrefused
    exact .refused hresult
  | withdrawn hresult hrefused hremove =>
    have hwritten := write_eq_ok_of_run hresult
    obtain ⟨hlog, rfl⟩ := write_eq_error_of_run hrefused
    obtain ⟨removed, hremoved⟩ := LawfulRemoval.remove_written hwritten
    rw [run_removeFile_of_ok hremoved] at hremove
    obtain rfl := hremove
    exact .withdrawn hwritten hlog (withdrawn_of_remove hwritten hremoved)
  | both hresult hlog => exact .both (write_eq_ok_of_run hresult) (write_eq_ok_of_run hlog)

end Writing

section Delivery

open LawfulStore

variable {σ : Type} [FileStore σ] [LawfulStore σ] {s : Session} {text : List Char} {a : Analysis}
  {output : String} {files after : σ}

/-- How the writing of the artifacts of a clean analysis can end. -/
def WriteEnds (s : Session) (a : Analysis) (output : String) (files : σ)
    (answer : Except Failure Unit) (after : σ) : Prop :=
  ∃ log, Artifact.logText a = .ok log ∧ Ends output s.settings.logFile
    (Utf8.encode (Artifact.resultText a)) (Utf8.encode log) files answer after

/-- Both artifacts of an analysis are read under their paths, and all else is as it was. -/
structure Delivered (s : Session) (a : Analysis) (output : String) (files after : σ) : Prop where
  place : ∀ other, place? after other = place? files other
  result : FileStore.read after output = .ok (Utf8.encode (Artifact.resultText a))
  log : ∃ log, Artifact.logText a = .ok log ∧
    FileStore.read after s.settings.logFile = .ok (Utf8.encode log)
  others : ∀ k, place? files output ≠ some k → place? files s.settings.logFile ≠ some k →
    at? after k = at? files k

theorem WriteGoes.ends [LawfulRemoval σ] {answer : Except Failure Unit}
    (h : s.WriteGoes a output files answer after) : s.WriteEnds a output files answer after := by
  obtain ⟨log, hlog, hgoes⟩ := h
  exact ⟨log, hlog, hgoes.ends⟩

/-- No failure leaves anything new. -/
theorem WriteEnds.at?_eq {f : Failure} (h : s.WriteEnds a output files (.error f) after)
    (l : Place σ) : at? after l = at? files l ∨ at? after l = none := by
  obtain ⟨_, _, hends⟩ := h
  cases hends with
  | refused => exact .inl rfl
  | withdrawn _ _ hw =>
    obtain ⟨k, _, hgone, hrest⟩ := hw.gone
    by_cases hl : l = k
    · exact .inr (hl ▸ hgone)
    · exact .inl (hrest l hl)

/-- Where both artifacts are written, they both lie where they belong just when their paths lead to
different places: otherwise only the log is left. -/
theorem WriteGoes.delivered_iff (ha : Analysis.ofText text = .ok a)
    (h : s.WriteGoes a output files (.ok ()) after) : s.Delivered a output files after ↔
      place? files output ≠ place? files s.settings.logFile := by
  obtain ⟨log, hlog, hgoes⟩ := h
  obtain ⟨written, hresult, hwrite⟩ := hgoes.writes
  obtain ⟨l, hl, _, hrest⟩ := at?_write hresult
  obtain ⟨k, hk, hat, hrest'⟩ := at?_write hwrite
  rw [place?_write hresult] at hk
  have hplace : ∀ other, place? after other = place? files other := by
    intro other
    rw [place?_write hwrite, place?_write hresult]
  constructor
  · intro hdelivered hsame
    -- What is read in the one place is the log, which is no result.
    obtain ⟨j, hj, hfile⟩ := read_eq_ok hdelivered.result
    rw [hplace, hsame] at hj
    obtain rfl := Option.some.inj (hk.symm.trans hj)
    rw [hat, Option.some.injEq, Disk.Entry.file.injEq] at hfile
    exact resultText_ne_logText ha hlog (Utf8.encode_injective hfile.symm)
  · intro hapart
    -- The log goes elsewhere, so the result is still read as it was written.
    have hlk : l ≠ k := by
      rintro rfl
      exact hapart (hl.trans hk.symm)
    have hkept : FileStore.read after output = FileStore.read written output :=
      read_congr (by rw [place?_write hresult, hl]) (by rw [hplace, hl]) (hrest' l hlk)
    refine ⟨hplace, hkept.trans (read_written hresult), ⟨log, hlog, read_written hwrite⟩, ?_⟩
    intro j hj hj'
    have hjl : j ≠ l := by
      rintro rfl
      exact hj hl
    have hjk : j ≠ k := by
      rintro rfl
      exact hj' hk
    rw [hrest' j hjk, hrest j hjl]

end Delivery

section Running

variable {σ : Type} [FileStore σ] {files : σ} {input : String}

theorem run_analyzeFile (files : σ) (input : String) :
    (analyzeFile (m := StateM σ) input).run files =
      (match FileStore.read files input with
        | .ok bytes => analyzeText (Utf8.decodeLossy bytes)
        | .error e => ⟨.error (.file input e), []⟩, files) := by
  rw [analyzeFile, run_bind_of_run (run_readFile files input)]
  cases FileStore.read files input <;> rfl

theorem result_analyzeFile {bytes : Bytes} {a : Analysis}
    (h : FileStore.read files input = .ok bytes) (ha : Analysis.ofBytes bytes = .ok a) :
    ((analyzeFile (m := StateM σ) input).run files).1.result = .ok a := by
  have hscan : Analysis.ofScan (scanText (Utf8.decodeLossy bytes)) = .ok a := ha
  rw [run_analyzeFile, h]
  simp only [analyzeText, hscan]

/-- Telling how an analysis went adds events to it and nothing else. -/
theorem run_analyze {analyzed : Logged Analysis}
    (h : (analyzeFile (m := StateM σ) input).run files = (analyzed, files)) :
    ∃ events, (analyze (m := StateM σ) input).run files =
      (⟨analyzed.result, events⟩, files) := by
  rw [analyze, run_bind_of_run h]
  exact ⟨_, rfl⟩

theorem run_analyze_of_unreadable {e : FileError} (h : FileStore.read files input = .error e) :
    ∃ events, (analyze (m := StateM σ) input).run files =
      (⟨.error (.file input e), events⟩, files) := by
  have hfile := run_analyzeFile files input
  rw [h] at hfile
  exact run_analyze hfile

theorem run_analyze_of_ok {bytes : Bytes} {a : Analysis}
    (h : FileStore.read files input = .ok bytes) (ha : Analysis.ofBytes bytes = .ok a) :
    ∃ events, (analyze (m := StateM σ) input).run files = (⟨.ok a, events⟩, files) := by
  have hscan : Analysis.ofScan (scanText (Utf8.decodeLossy bytes)) = .ok a := ha
  have hfile := run_analyzeFile files input
  simp only [h, analyzeText, hscan] at hfile
  exact run_analyze hfile

variable {s : Session} {output : String} {bytes : Bytes} {a : Analysis}

theorem run_run_of_unreadable (s : Session) (output : String) {e : FileError}
    (h : FileStore.read files input = .error e) :
    ∃ events, (s.run (m := StateM σ) input output).run files =
      (⟨.error (.file input e), events⟩, files) := by
  obtain ⟨events, hanalyze⟩ := run_analyze_of_unreadable h
  rw [run, run_bind_of_run hanalyze]
  exact ⟨events, rfl⟩

theorem run_run_of_hasErrors (s : Session) (output : String)
    (h : FileStore.read files input = .ok bytes) (ha : Analysis.ofBytes bytes = .ok a)
    (he : a.hasErrors = true) :
    ∃ events, (s.run (m := StateM σ) input output).run files = (⟨.ok a, events⟩, files) := by
  obtain ⟨events, hanalyze⟩ := run_analyze_of_ok h ha
  simp only [run, run_bind_of_run hanalyze, he, if_true]
  exact ⟨events, rfl⟩

/-- A run over a clean input comes to what the writing of its artifacts comes to. -/
theorem run_run_of_clean (h : FileStore.read files input = .ok bytes)
    (ha : Analysis.ofBytes bytes = .ok a) (he : a.hasErrors = false) {wrote : Logged Unit}
    {after : σ} (hwrite : (s.write (m := StateM σ) a output).run files = (wrote, after)) :
    ∃ events, (s.run (m := StateM σ) input output).run files =
      (⟨wrote.result.map fun () => a, events⟩, after) := by
  obtain ⟨events, hanalyze⟩ := run_analyze_of_ok h ha
  simp only [run, run_bind_of_run hanalyze, he, Bool.false_eq_true, if_false,
    run_bind_of_run hwrite]
  exact ⟨_, rfl⟩

/-- How a run goes: the input is unreadable, or it has diagnostics, or the artifacts are to be
written. -/
inductive RunGoes (s : Session) (input output : String) (files : σ) :
    Except Failure Analysis → σ → Prop where
  | unreadable {e : FileError} (hread : FileStore.read files input = .error e) :
      RunGoes s input output files (.error (.file input e)) files
  | diagnosed {bytes : Bytes} {a : Analysis} (hread : FileStore.read files input = .ok bytes)
      (ha : Analysis.ofBytes bytes = .ok a) (he : a.hasErrors = true) :
      RunGoes s input output files (.ok a) files
  | failed {bytes : Bytes} {a : Analysis} {f : Failure} {after : σ}
      (hread : FileStore.read files input = .ok bytes) (ha : Analysis.ofBytes bytes = .ok a)
      (he : a.hasErrors = false) (h : s.WriteGoes a output files (.error f) after) :
      RunGoes s input output files (.error f) after
  | written {bytes : Bytes} {a : Analysis} {after : σ}
      (hread : FileStore.read files input = .ok bytes) (ha : Analysis.ofBytes bytes = .ok a)
      (he : a.hasErrors = false) (h : s.WriteGoes a output files (.ok ()) after) :
      RunGoes s input output files (.ok a) after

theorem run_goes (s : Session) (input output : String) (files : σ) :
    let ran := (s.run (m := StateM σ) input output).run files
    s.RunGoes input output files ran.1.result ran.2 := by
  intro ran
  cases hread : FileStore.read files input with
  | error e =>
    obtain ⟨events, hrun⟩ := run_run_of_unreadable s output hread
    simp only [ran, hrun]
    exact .unreadable hread
  | ok bytes =>
    obtain ⟨a, ha, _⟩ := Analysis.ofText_accountsFor (Utf8.decodeLossy bytes)
    cases he : a.hasErrors with
    | true =>
      obtain ⟨events, hrun⟩ := run_run_of_hasErrors s output hread ha he
      simp only [ran, hrun]
      exact .diagnosed hread ha he
    | false =>
      have hgoes := s.write_goes ha he output files
      obtain ⟨⟨answer, events'⟩, after, hwrite⟩ := exists_run (s.write a output) files
      obtain ⟨events, hrun⟩ := run_run_of_clean hread ha he hwrite
      rw [hwrite] at hgoes
      simp only [ran, hrun]
      cases answer with
      | error f => exact .failed hread ha he hgoes
      | ok => exact .written hread ha he hgoes

/-- Where there are diagnostics there is one way to go. -/
theorem RunGoes.eq_of_hasErrors {s : Session} {output : String} {after : σ} {bytes : Bytes}
    {a : Analysis} {answer : Except Failure Analysis}
    (h : s.RunGoes input output files answer after) (hread : FileStore.read files input = .ok bytes)
    (ha : Analysis.ofBytes bytes = .ok a) (he : a.hasErrors = true) :
    answer = .ok a ∧ after = files := by
  cases h with
  | unreadable hread' => cases hread.symm.trans hread'
  | diagnosed hread' ha' =>
    obtain rfl := Except.ok.inj (hread.symm.trans hread')
    obtain rfl := Except.ok.inj (ha.symm.trans ha')
    exact ⟨rfl, rfl⟩
  | failed hread' ha' he' | written hread' ha' he' =>
    obtain rfl := Except.ok.inj (hread.symm.trans hread')
    obtain rfl := Except.ok.inj (ha.symm.trans ha')
    exact absurd he (by simp [he'])

end Running

end Session

variable {σ : Type} [FileStore σ] [LawfulStore σ]

/-- Unsuccessful runs write no artifact. An analysis with diagnostics is refused with their number,
and a run that finds one ends well and writes nothing; the files are those from before. Any other
failure is that of a file: the input is unreadable or the result refused, and the files are those
from before; or the log is refused, and then nothing lies where the result's path leads and
everything else is as it was. So no failure leaves anything new in any place. The store is one
without links, in which a refused write changes nothing and a file just written can be removed. -/
theorem unsuccessful_runs_leave_no_artifact [LawfulRemoval σ] (s : Session)
    (input output : String) (files : σ) :
    (∀ text a, Analysis.ofText text = .ok a →
      let wrote := (s.write (m := StateM σ) a output).run files
      (a.hasErrors = true → wrote.1.result = .error (.lexical a.report.toList.length) ∧
        wrote.2 = files) ∧
      ∀ f, a.hasErrors = false → wrote.1.result = .error f →
        s.WriteEnds a output files (.error f) wrote.2 ∧
        ∀ l, LawfulStore.at? wrote.2 l = LawfulStore.at? files l ∨
          LawfulStore.at? wrote.2 l = none) ∧
    let ran := (s.run (m := StateM σ) input output).run files
    (∀ bytes a, FileStore.read files input = .ok bytes → Analysis.ofBytes bytes = .ok a →
      a.hasErrors = true → ran.1.result = .ok a ∧ ran.2 = files) ∧
    ∀ f, ran.1.result = .error f →
      ((∃ e, FileStore.read files input = .error e ∧ f = .file input e ∧ ran.2 = files) ∨
        ∃ bytes a, FileStore.read files input = .ok bytes ∧ Analysis.ofBytes bytes = .ok a ∧
          a.hasErrors = false ∧ s.WriteEnds a output files (.error f) ran.2) ∧
      ∀ l, LawfulStore.at? ran.2 l = LawfulStore.at? files l ∨ LawfulStore.at? ran.2 l = none := by
  refine ⟨fun text a ha => ⟨fun he => ?_, fun f he hf => ?_⟩, ?_⟩
  · rw [s.run_write_of_hasErrors he]
    exact ⟨rfl, rfl⟩
  · have hends := (s.write_goes ha he output files).ends
    simp only [hf] at hends
    exact ⟨hends, hends.at?_eq⟩
  · intro ran
    have hgoes : s.RunGoes input output files ran.1.result ran.2 := s.run_goes input output files
    generalize ran.1.result = answer, ran.2 = after at hgoes
    refine ⟨fun bytes a hread ha he => ?_, ?_⟩
    · exact hgoes.eq_of_hasErrors hread ha he
    · rintro f rfl
      cases hgoes with
      | unreadable hread => exact ⟨.inl ⟨_, hread, rfl, rfl⟩, fun l => .inl rfl⟩
      | failed hread ha he h => exact ⟨.inr ⟨_, _, hread, ha, he, h.ends⟩, h.ends.at?_eq⟩

/-- A log in a missing directory takes the result with it, and a stray character keeps anything from
being written. -/
theorem unsuccessful_runs_leave_no_artifact_missing :
    let s : Session := ⟨{ logFile := "missing/lexer.logs" }⟩
    let files : Disk.Tree := { entries := [(["in.mlc"], .file (Utf8.encode "x := 1")),
      (["stray.mlc"], .file (Utf8.encode "x @ y"))] }
    let failed := (s.run (m := StateM Disk.Tree) "in.mlc" "out.txt").run files
    let stray := (s.run (m := StateM Disk.Tree) "stray.mlc" "out.txt").run files
    failed.1.result = .error (.file "missing/lexer.logs" .notFound) ∧
      (∀ l, failed.2.find? l = files.find? l ∨ failed.2.find? l = none) ∧ stray.2 = files ∧
      ∃ a, stray.1.result = .ok a ∧ ((s.write (m := StateM Disk.Tree) a "out.txt").run files).2 =
        files := by
  intro s files failed stray
  have hfailed : failed.1.result = .error (.file "missing/lexer.logs" .notFound) := by
    decide +kernel
  have hread : FileStore.read files "stray.mlc" = .ok (Utf8.encode "x @ y") := by decide +kernel
  obtain ⟨a, ha, _⟩ := Analysis.ofText_accountsFor (Utf8.decodeLossy (Utf8.encode "x @ y"))
  have hstray : (Analysis.ofText (Utf8.decodeLossy (Utf8.encode "x @ y"))).toOption.all
      Analysis.hasErrors = true := by
    decide +kernel
  have he : a.hasErrors = true := by
    rw [ha] at hstray
    exact hstray
  obtain ⟨_, _, hfailure⟩ := unsuccessful_runs_leave_no_artifact s "in.mlc" "out.txt" files
  obtain ⟨hwrite, hrun, _⟩ := unsuccessful_runs_leave_no_artifact s "stray.mlc" "out.txt" files
  obtain ⟨hresult, hfiles⟩ := hrun _ a hread ha he
  exact ⟨hfailed, (hfailure _ hfailed).2, hfiles, a, hresult, ((hwrite _ a ha).1 he).2⟩

/-- A run or a writing that succeeds leaves both artifacts, and touches nothing else, just when
their paths lead to different places. Of the store, which is one without links, only its reads and
writes are relied on, since nothing is removed on the way to a success. -/
theorem artifacts_delivered_iff_apart (s : Session) (input output : String) (files : σ) :
    (∀ text a, Analysis.ofText text = .ok a →
      let wrote := (s.write (m := StateM σ) a output).run files
      wrote.1.result = .ok () → (s.Delivered a output files wrote.2 ↔
        LawfulStore.place? files output ≠ LawfulStore.place? files s.settings.logFile)) ∧
    let ran := (s.run (m := StateM σ) input output).run files
    ∀ a, ran.1.result = .ok a → a.hasErrors = false →
      (∃ bytes, FileStore.read files input = .ok bytes ∧ Analysis.ofBytes bytes = .ok a) ∧
      (s.Delivered a output files ran.2 ↔
        LawfulStore.place? files output ≠ LawfulStore.place? files s.settings.logFile) := by
  constructor
  · intro text a ha wrote hok
    have hgoes := s.write_goes ha (Session.hasErrors_of_write hok) output files
    simp only [wrote, hok] at hgoes
    exact hgoes.delivered_iff ha
  · intro ran
    have hgoes : s.RunGoes input output files ran.1.result ran.2 := s.run_goes input output files
    generalize ran.1.result = answer, ran.2 = after at hgoes
    rintro a rfl hclean
    cases hgoes with
    | diagnosed _ _ he => exact absurd he (by simp [hclean])
    | written hread ha _ h => exact ⟨⟨_, hread, ha⟩, h.delivered_iff ha⟩

/-- With the log at its default path both artifacts are there. -/
theorem artifacts_delivered_iff_apart_default :
    let s : Session := {}
    let files : Disk.Tree := { entries := [(["in.mlc"], .file (Utf8.encode "x"))] }
    let ran := (s.run (m := StateM Disk.Tree) "in.mlc" "out.txt").run files
    ∃ a, ran.1.result = .ok a ∧ a.hasErrors = false ∧ s.Delivered a "out.txt" files ran.2 ∧
      let wrote := (s.write (m := StateM Disk.Tree) a "out.txt").run files
      wrote.1.result = .ok () ∧ s.Delivered a "out.txt" files wrote.2 := by
  intro s files ran
  let a : Analysis :=
    { vocabulary := { identifiers := ⟨["x"]⟩ }, references := #[⟨1, .identifier, 0⟩] }
  have hran : ran.1.result = .ok a := by decide +kernel
  have hwrote : ((s.write (m := StateM Disk.Tree) a "out.txt").run files).1.result = .ok () := by
    decide +kernel
  have ha : Analysis.ofText "x".toList = .ok a := by decide +kernel
  have hapart : files.locationOf "out.txt" ≠ files.locationOf s.settings.logFile := by
    decide +kernel
  obtain ⟨hwrite, hrun⟩ := artifacts_delivered_iff_apart s "in.mlc" "out.txt" files
  exact ⟨a, hran, rfl, (hrun a hran rfl).2.mpr hapart, hwrote,
    (hwrite _ a ha hwrote).mpr hapart⟩

/-- When the log goes to the path of the result, the run succeeds and the result is lost. -/
theorem result_lost_to_log :
    let s : Session := ⟨{ logFile := "out.txt" }⟩
    let files : Disk.Tree := { entries := [(["in.mlc"], .file (Utf8.encode "x"))] }
    let ran := (s.run (m := StateM Disk.Tree) "in.mlc" "out.txt").run files
    ∃ a, ran.1.result = .ok a ∧ a.hasErrors = false ∧
      Artifact.resultText a = "\nx \n1,4,0 \n" ∧
      ran.2.read "out.txt" = .ok (Utf8.encode
        "[Identificators]\n0: x\n\n[Numbers]\n\n[Tokens]\n(4,0) : x\n") ∧
      ¬ s.Delivered a "out.txt" files ran.2 := by
  intro s files ran
  let a : Analysis :=
    { vocabulary := { identifiers := ⟨["x"]⟩ }, references := #[⟨1, .identifier, 0⟩] }
  have hran : ran.1.result = .ok a := by decide +kernel
  have hlog : FileStore.read ran.2 "out.txt" = .ok (Utf8.encode
      "[Identificators]\n0: x\n\n[Numbers]\n\n[Tokens]\n(4,0) : x\n") := by
    decide +kernel
  have hresult : Artifact.resultText a = "\nx \n1,4,0 \n" := by decide +kernel
  refine ⟨a, hran, rfl, hresult, hlog, fun hdelivered => ?_⟩
  have hread := hdelivered.result
  rw [hlog, hresult] at hread
  exact absurd hread (by decide +kernel)

end LexicalAnalyzer
