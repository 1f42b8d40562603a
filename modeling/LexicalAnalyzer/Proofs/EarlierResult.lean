import LexicalAnalyzer.Proofs.ArtifactWriting

/-!
What a failed writing leaves of an earlier result. The operations on the files need not be all or
nothing here: a refused write may have been carried out in part, a removal may be refused, and links
may lead several paths to one file. When the result is refused, nothing else is tried. When the log
is refused, the result has been written over the earlier content, and it is removed again or, where
that is refused too, it stays; the earlier content does not come back.
-/
namespace LexicalAnalyzer

/-- Operations on files that do what they say when they are carried out. How far a refused write
gets is open, and so is which paths lead to one file. -/
class LawfulAccess (σ : Type) [FileAccess (StateM σ)] where
  /-- The content of the file to which a path leads, whether or not it may be read. -/
  content? : σ → String → Option Bytes
  /-- Two paths that lead to no common file, also none that is yet to be made. -/
  Apart : σ → String → String → Prop
  content?_read {files after : σ} {path : String} {content : Bytes}
    (h : (FileAccess.readFile (m := StateM σ) path).run files = (.ok content, after)) :
    content? files path = some content
  /-- A write replaces the whole content of its file. -/
  content?_write {files written : σ} {path : String} {content : Bytes}
    (h : (FileAccess.writeFile (m := StateM σ) path content).run files = (.ok (), written)) :
    content? written path = some content
  content?_write_apart {files after : σ} {path other : String} {content : Bytes}
    {answer : Except FileError Unit}
    (h : (FileAccess.writeFile (m := StateM σ) path content).run files = (answer, after))
    (hapart : Apart files path other) : content? after other = content? files other
  /-- Writing makes no links. -/
  apart_write {files after : σ} {path p q : String} {content : Bytes}
    {answer : Except FileError Unit}
    (h : (FileAccess.writeFile (m := StateM σ) path content).run files = (answer, after))
    (hapart : Apart files p q) : Apart after p q
  content?_remove {files removed : σ} {path : String}
    (h : (FileAccess.removeFile (m := StateM σ) path).run files = (.ok (), removed)) :
    content? removed path = none
  /-- A refused removal changes nothing. -/
  content?_remove_refused {files after : σ} {path : String} {e : FileError}
    (h : (FileAccess.removeFile (m := StateM σ) path).run files = (.error e, after))
    (other : String) : content? after other = content? files other
  content?_remove_apart {files after : σ} {path other : String} {answer : Except FileError Unit}
    (h : (FileAccess.removeFile (m := StateM σ) path).run files = (answer, after))
    (hapart : Apart files path other) : content? after other = content? files other

def Disk.Entry.content? : Disk.Entry → Option Bytes
  | .directory => none
  | .file content => some content

namespace LawfulStore

variable {σ : Type} [FileStore σ] [LawfulStore σ] {files after : σ} {path other : String}

/-- The content of the file at the place of a path. -/
def content? (files : σ) (path : String) : Option Bytes :=
  (place? files path).bind fun l => (at? files l).bind Disk.Entry.content?

theorem content?_of_at? {l : Place σ} {content : Bytes} (hplace : place? files path = some l)
    (hat : at? files l = some (.file content)) : content? files path = some content := by
  simp [content?, hplace, hat, Disk.Entry.content?]

theorem content?_of_gone {l : Place σ} (hplace : place? files path = some l)
    (hat : at? files l = none) : content? files path = none := by
  simp [content?, hplace, hat]

/-- A change at one place does not show under a path that names another. -/
theorem content?_congr {l : Place σ} (hplace : place? after other = place? files other)
    (hat : ∀ k ≠ l, at? after k = at? files k) (hapart : place? files other ≠ some l) :
    content? after other = content? files other := by
  rw [content?, content?, hplace]
  cases hother : place? files other with
  | none => rfl
  | some k =>
    have hk : k ≠ l := by
      rintro rfl
      exact hapart hother
    simp only [Option.bind_some, hat k hk]

variable [LawfulRemoval σ]

/-- In a store without links, paths are apart that do not name the same place. -/
instance : LawfulAccess σ where
  content? := content?
  Apart files p q := ∀ l, place? files p = some l → place? files q ≠ some l
  content?_read h := by
    obtain ⟨l, hl, hat⟩ := read_eq_ok (Prod.mk.inj h).1
    exact content?_of_at? hl hat
  content?_write h := by
    have hwrite := write_eq_ok_of_run h
    obtain ⟨l, hl, hat, -⟩ := at?_write hwrite
    exact content?_of_at? ((place?_write hwrite _).trans hl) hat
  content?_write_apart {files after path other content answer} h hapart := by
    cases answer with
    | error e => rw [(write_eq_error_of_run h).2]
    | ok =>
      have hwrite := write_eq_ok_of_run h
      obtain ⟨l, hl, -, hrest⟩ := at?_write hwrite
      exact content?_congr (place?_write hwrite other) hrest (hapart l hl)
  apart_write {files after path p q content answer} h hapart := by
    cases answer with
    | error e => rwa [(write_eq_error_of_run h).2]
    | ok =>
      have hwrite := write_eq_ok_of_run h
      rwa [place?_write hwrite p, place?_write hwrite q]
  content?_remove h := by
    have hremove := eq_ok_of_run_change h
    obtain ⟨l, hl, hgone, -⟩ := LawfulRemoval.at?_remove hremove
    exact content?_of_gone ((LawfulRemoval.place?_remove hremove _).trans hl) hgone
  content?_remove_refused h other := by rw [(eq_error_of_run_change h).2]
  content?_remove_apart {files after path other answer} h hapart := by
    cases answer with
    | error e => rw [(eq_error_of_run_change h).2]
    | ok =>
      have hremove := eq_ok_of_run_change h
      obtain ⟨l, hl, -, hrest⟩ := LawfulRemoval.at?_remove hremove
      exact content?_congr (LawfulRemoval.place?_remove hremove other) hrest (hapart l hl)

end LawfulStore

namespace Session

open LawfulAccess

variable {σ : Type} [FileAccess (StateM σ)] [LawfulAccess σ]

/-- How the writing of the artifacts of a clean analysis fails, and what becomes of the output. -/
inductive FailsWith (s : Session) (a : Analysis) (output : String) (files : σ) :
    Failure → σ → Prop where
  /-- The result is refused, and nothing else is tried. -/
  | result {e : FileError} {after : σ}
      (h : (FileAccess.writeFile (m := StateM σ) output
        (Utf8.encode (Artifact.resultText a))).run files = (.error e, after)) :
      FailsWith s a output files (.file output e) after
  /-- The log is refused, and the result is removed from where it has been written. -/
  | removed {log : String} {e : FileError} {written behind after : σ}
      (hlog : Artifact.logText a = .ok log)
      (hresult : (FileAccess.writeFile (m := StateM σ) output
        (Utf8.encode (Artifact.resultText a))).run files = (.ok (), written))
      (h : (FileAccess.writeFile (m := StateM σ) s.settings.logFile (Utf8.encode log)).run written =
        (.error e, behind))
      (hremove : (FileAccess.removeFile (m := StateM σ) output).run behind = (.ok (), after))
      (hgone : content? after output = none) :
      FailsWith s a output files (.file s.settings.logFile e) after
  /-- The log is refused and so is the removal, of which nothing is told. What the refused log has
  left under the output's path stays there: the result, when the log goes elsewhere. -/
  | left {log : String} {e e' : FileError} {written behind after : σ}
      (hlog : Artifact.logText a = .ok log)
      (hresult : (FileAccess.writeFile (m := StateM σ) output
        (Utf8.encode (Artifact.resultText a))).run files = (.ok (), written))
      (h : (FileAccess.writeFile (m := StateM σ) s.settings.logFile (Utf8.encode log)).run written =
        (.error e, behind))
      (hremove : (FileAccess.removeFile (m := StateM σ) output).run behind = (.error e', after))
      (hstays : content? after output = content? behind output)
      (hnew : Apart files s.settings.logFile output →
        content? after output = some (Utf8.encode (Artifact.resultText a))) :
      FailsWith s a output files (.file s.settings.logFile e) after

variable {s : Session} {a : Analysis} {output : String} {files after : σ} {f : Failure}

theorem WriteGoes.failsWith (h : s.WriteGoes a output files (.error f) after) :
    s.FailsWith a output files f after := by
  obtain ⟨log, hlog, hgoes⟩ := h
  cases hgoes with
  | refused h => exact .result h
  | @withdrawn e written behind _ hresult h hremove =>
    obtain ⟨answer, removed, hrun⟩ := exists_run (FileAccess.removeFile output) behind
    obtain rfl : removed = after := by rw [← hremove, hrun]
    cases answer with
    | ok => exact .removed hlog hresult h hrun (content?_remove hrun)
    | error e' =>
      have hstays := content?_remove_refused hrun output
      refine .left hlog hresult h hrun hstays fun hapart => ?_
      rw [hstays, content?_write_apart h (apart_write hresult hapart), content?_write hresult]

/-- Whatever becomes of the artifacts, no other file shows it. -/
theorem Goes.content?_eq {logFile other : String} {result log : Bytes}
    {answer : Except Failure Unit} (h : Goes output logFile result log files answer after)
    (houtput : Apart files output other) (hlogFile : Apart files logFile other) :
    content? after other = content? files other := by
  cases h with
  | refused h => exact content?_write_apart h houtput
  | both hresult h =>
    rw [content?_write_apart h (apart_write hresult hlogFile), content?_write_apart hresult houtput]
  | @withdrawn e written behind _ hresult h hremove =>
    have hrun : (FileAccess.removeFile (m := StateM σ) output).run behind = (_, after) :=
      Prod.ext rfl hremove
    rw [content?_remove_apart hrun (apart_write h (apart_write hresult houtput)),
      content?_write_apart h (apart_write hresult hlogFile), content?_write_apart hresult houtput]

/-- An earlier content is kept by a refused result that leaves it alone, and by nothing else. -/
theorem FailsWith.content?_eq_iff (h : s.FailsWith a output files f after) {old : Bytes}
    (hold : content? files output = some old) (hnew : old ≠ Utf8.encode (Artifact.resultText a))
    (hapart : Apart files s.settings.logFile output)
    (hkept : ∀ e behind, (FileAccess.writeFile (m := StateM σ) output
      (Utf8.encode (Artifact.resultText a))).run files = (.error e, behind) →
        content? behind output = content? files output) :
    content? after output = some old ↔ ∃ e behind, (FileAccess.writeFile (m := StateM σ) output
      (Utf8.encode (Artifact.resultText a))).run files = (.error e, behind) := by
  cases h with
  | result h => exact iff_of_true ((hkept _ _ h).trans hold) ⟨_, _, h⟩
  | removed hlog hresult h hremove hgone =>
    refine iff_of_false (by simp [hgone]) ?_
    rintro ⟨e, behind, hrefused⟩
    cases hresult.symm.trans hrefused
  | left hlog hresult h hremove hstays hresultStays =>
    refine iff_of_false ?_ ?_
    · rw [hresultStays hapart, Option.some.injEq]
      exact hnew.symm
    · rintro ⟨e, behind, hrefused⟩
      cases hresult.symm.trans hrefused

end Session

open LawfulAccess in
/-- What becomes of an earlier result when a writing fails. Either the result is refused, and the
files are as that has left them; or the log is, after the result has been written. Then the result
is removed and its path holds nothing, or the removal is refused and the path holds what the refused
log has left there, which is the new result when the log goes to another file. Files to which
neither path leads stay as they are. So an earlier content other than the new result is kept just
when the result is refused, where that alone leaves it as it is and the log goes to another file. -/
theorem earlier_result_kept_iff_refused {σ : Type} [FileAccess (StateM σ)] [LawfulAccess σ]
    (s : Session) {text : List Char} {a : Analysis} (ha : Analysis.ofText text = .ok a)
    (he : a.hasErrors = false) (output : String) (files : σ) :
    let result := Utf8.encode (Artifact.resultText a)
    let logFile := s.settings.logFile
    let wrote := (s.write (m := StateM σ) a output).run files
    ∀ f, wrote.1.result = .error f →
      s.FailsWith a output files f wrote.2 ∧
      (∀ other, Apart files output other → Apart files logFile other →
        content? wrote.2 other = content? files other) ∧
      ∀ old, content? files output = some old → old ≠ result → Apart files logFile output →
        (∀ e behind, (FileAccess.writeFile (m := StateM σ) output result).run files =
          (.error e, behind) → content? behind output = content? files output) →
        (content? wrote.2 output = some old ↔ ∃ e behind,
          (FileAccess.writeFile (m := StateM σ) output result).run files = (.error e, behind)) := by
  intro result logFile wrote f hf
  have hgoes : s.WriteGoes a output files (.error f) wrote.2 := hf ▸ s.write_goes ha he output files
  have hfails : s.FailsWith a output files f wrote.2 := hgoes.failsWith
  obtain ⟨log, -, hboth⟩ := hgoes
  refine ⟨hfails, fun other => hboth.content?_eq, fun old hold hnew hapart hkept => ?_⟩
  exact hfails.content?_eq_iff hold hnew hapart hkept

open LawfulAccess in
/-- A log in a missing directory costs the earlier result. A path that can only mean a directory is
refused, and the file of that name stays. -/
theorem earlier_result_kept_iff_refused_slash :
    let s : Session := ⟨{ logFile := "missing/lexer.logs" }⟩
    let files : Disk.Tree := { entries := [(["out.txt"], .file (Utf8.encode "old"))] }
    let lost := (s.write (m := StateM Disk.Tree) {} "out.txt").run files
    let kept := (s.write (m := StateM Disk.Tree) {} "out.txt/").run files
    content? files "out.txt" = some (Utf8.encode "old") ∧
      lost.1.result = .error (.file "missing/lexer.logs" .notFound) ∧
      content? lost.2 "out.txt" ≠ some (Utf8.encode "old") ∧
      content? files "out.txt/" = some (Utf8.encode "old") ∧
      kept.1.result = .error (.file "out.txt/" .isADirectory) ∧
      content? kept.2 "out.txt/" = some (Utf8.encode "old") := by
  intro s files lost kept
  have ha : Analysis.ofText [] = .ok {} := by decide +kernel
  have hread : FileStore.read files "out.txt" = .ok (Utf8.encode "old") := by decide +kernel
  have hold : content? files "out.txt" = some (Utf8.encode "old") :=
    content?_read (Prod.ext hread rfl)
  have hslash : content? files "out.txt/" = some (Utf8.encode "old") := by decide +kernel
  have hnew : Utf8.encode "old" ≠ Utf8.encode (Artifact.resultText {}) := by decide +kernel
  have hnowhere : LawfulStore.place? files "missing/lexer.logs" = none := by decide +kernel
  have hapart (output : String) : Apart files "missing/lexer.logs" output := by
    intro l hl
    cases hnowhere.symm.trans hl
  have hlost : lost.1.result = .error (.file "missing/lexer.logs" .notFound) := by decide +kernel
  have hkept : kept.1.result = .error (.file "out.txt/" .isADirectory) := by decide +kernel
  obtain ⟨-, -, hlostIff⟩ := earlier_result_kept_iff_refused s ha rfl "out.txt" files _ hlost
  obtain ⟨-, -, hkeptIff⟩ := earlier_result_kept_iff_refused s ha rfl "out.txt/" files _ hkept
  refine ⟨hold, hlost, fun hfound => ?_, hslash, hkept, ?_⟩
  · have hwritten : (FileStore.write files "out.txt"
        (Utf8.encode (Artifact.resultText {}))).toOption.isSome = true := by
      decide +kernel
    obtain ⟨e, behind, hrefused⟩ := (hlostIff _ hold hnew (hapart _) fun e behind h => by
      rw [(write_eq_error_of_run h).2]).mp hfound
    rw [(write_eq_error_of_run hrefused).1] at hwritten
    cases hwritten
  · have hrefused : FileStore.write files "out.txt/" (Utf8.encode (Artifact.resultText {})) =
        .error .isADirectory := by
      decide +kernel
    exact (hkeptIff _ hslash hnew (hapart _) fun e behind h => by
      rw [(write_eq_error_of_run h).2]).mpr ⟨_, _, run_change_of_error hrefused⟩

/-- A writing that fails, and takes the result of an earlier run with it: the path that held a file
holds none, so the files are not those from before. -/
theorem earlier_result_removed :
    let s : Session := ⟨{ logFile := "missing/lexer.logs" }⟩
    let files : Disk.Tree := { entries := [(["out.txt"], .file (Utf8.encode "old"))] }
    ∃ a, Analysis.ofText "x := 1".toList = .ok a ∧ a.hasErrors = false ∧
      let wrote := (s.write (m := StateM Disk.Tree) a "out.txt").run files
      FileStore.read files "out.txt" = .ok (Utf8.encode "old") ∧
      wrote.1.result = .error (.file "missing/lexer.logs" .notFound) ∧
      FileStore.read wrote.2 "out.txt" = .error .notFound ∧ wrote.2 ≠ files := by
  intro s files
  let a : Analysis :=
    { vocabulary := { numbers := ⟨["1"]⟩, identifiers := ⟨["x"]⟩ }
      references :=
        #[⟨1, .identifier, 0⟩, ⟨1, .separator, 11⟩, ⟨1, .separator, 2⟩, ⟨1, .number, 0⟩] }
  have ha : Analysis.ofText "x := 1".toList = .ok a := by decide +kernel
  refine ⟨a, ha, rfl, ?_, ?_, ?_, ?_⟩
  all_goals decide +kernel

end LexicalAnalyzer
