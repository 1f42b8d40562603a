import LexicalAnalyzer.Disk.Tree
import Mathlib.Logic.Basic

/-!
File operations on a store, and what is relied on of a store. An operation answers, and leaves the
store, as the store's own function says. Paths name places, and at a place there may lie a file or a
directory. A write puts a file with the given content at the place of its path, a file just written
can be removed again, and neither touches another place or changes what paths name; there are no
links by which one file lies at two places. The laws of reading and writing stand apart from those
of removing. The tree keeps them all: a path is followed through directories only, and writing and
removing a file makes or destroys none.
-/
namespace LexicalAnalyzer

section Operations

variable {σ : Type} {files changed : σ}

theorem exists_run {α : Type} (x : StateM σ α) (files : σ) :
    ∃ answer after, x.run files = (answer, after) :=
  ⟨_, _, rfl⟩

/-- What follows an activity goes on with its answer and with the files behind it. -/
theorem run_bind_of_run {α β : Type} {x : StateM σ α} {next : α → StateM σ β} {answer : α}
    (h : x.run files = (answer, changed)) : (x >>= next).run files = (next answer).run changed := by
  rw [StateT.run_bind, h]
  rfl

variable {e : FileError} {operation : σ → Except FileError σ}

theorem run_change_of_ok (h : operation files = .ok changed) :
    (FileStore.change operation).run files = (.ok (), changed) := by
  change FileStore.change operation files = _
  rw [FileStore.change, h]

theorem run_change_of_error (h : operation files = .error e) :
    (FileStore.change operation).run files = (.error e, files) := by
  change FileStore.change operation files = _
  rw [FileStore.change, h]

theorem eq_ok_of_run_change (h : (FileStore.change operation).run files = (.ok (), changed)) :
    operation files = .ok changed := by
  cases hop : operation files with
  | error e => cases (run_change_of_error hop).symm.trans h
  | ok made =>
    obtain rfl := (Prod.mk.inj ((run_change_of_ok hop).symm.trans h)).2
    rfl

/-- A refused change changes nothing. -/
theorem eq_error_of_run_change (h : (FileStore.change operation).run files = (.error e, changed)) :
    operation files = .error e ∧ changed = files := by
  cases hop : operation files with
  | ok made => cases (run_change_of_ok hop).symm.trans h
  | error e' =>
    obtain ⟨he, rfl⟩ := Prod.mk.inj ((run_change_of_error hop).symm.trans h)
    obtain rfl := Except.error.inj he
    exact ⟨rfl, rfl⟩

variable [FileStore σ] {path : String} {content : Bytes}

theorem run_readFile (files : σ) (path : String) :
    (FileAccess.readFile (m := StateM σ) path).run files = (FileStore.read files path, files) :=
  rfl

theorem write_eq_ok_of_run
    (h : (FileAccess.writeFile (m := StateM σ) path content).run files = (.ok (), changed)) :
    FileStore.write files path content = .ok changed :=
  eq_ok_of_run_change h

theorem write_eq_error_of_run
    (h : (FileAccess.writeFile (m := StateM σ) path content).run files = (.error e, changed)) :
    FileStore.write files path content = .error e ∧ changed = files :=
  eq_error_of_run_change h

theorem run_removeFile_of_ok (h : FileStore.remove files path = .ok changed) :
    (FileAccess.removeFile (m := StateM σ) path).run files = (.ok (), changed) :=
  run_change_of_ok h

end Operations

/-- A store whose reads and writes can be relied on. It is one without links: a path names one place
at most, and what is written at a place lies nowhere else. A write that is refused changes nothing,
since the store behind it is the one before. -/
class LawfulStore (σ : Type) [FileStore σ] where
  Place : Type
  /-- The place that a path names; nothing needs to lie there yet. -/
  place? : σ → String → Option Place
  /-- What lies at a place. -/
  at? : σ → Place → Option Disk.Entry
  /-- A write replaces the whole content of its file. -/
  at?_write {files written : σ} {path : String} {content : Bytes}
    (h : FileStore.write files path content = .ok written) :
    ∃ l, place? files path = some l ∧ at? written l = some (.file content) ∧
      ∀ k ≠ l, at? written k = at? files k
  place?_write {files written : σ} {path : String} {content : Bytes}
    (h : FileStore.write files path content = .ok written) (other : String) :
    place? written other = place? files other
  /-- A path that exists has something at its place. -/
  pathExists_eq_true {files : σ} {path : String} (h : FileStore.pathExists files path = true) :
    ∃ l e, place? files path = some l ∧ at? files l = some e
  /-- What is read under a path lies at its place. -/
  read_eq_ok {files : σ} {path : String} {content : Bytes}
    (h : FileStore.read files path = .ok content) :
    ∃ l, place? files path = some l ∧ at? files l = some (.file content)
  read_written {files written : σ} {path : String} {content : Bytes}
    (h : FileStore.write files path content = .ok written) :
    FileStore.read written path = .ok content
  /-- Nothing else counts for a read than what lies at the place of the path. -/
  read_congr {files others : σ} {path : String} {l : Place} (h : place? files path = some l)
    (h' : place? others path = some l) (hat : at? others l = at? files l) :
    FileStore.read others path = FileStore.read files path

/-- A store whose removals can be relied on too. What is removed is the file at the place of the
path and not a link to it, and nothing else goes with it. -/
class LawfulRemoval (σ : Type) [FileStore σ] [LawfulStore σ] : Prop where
  /-- A file just written can be removed. -/
  remove_written {files written : σ} {path : String} {content : Bytes}
    (h : FileStore.write files path content = .ok written) :
    ∃ removed, FileStore.remove written path = .ok removed
  at?_remove {files removed : σ} {path : String} (h : FileStore.remove files path = .ok removed) :
    ∃ l, LawfulStore.place? files path = some l ∧ LawfulStore.at? removed l = none ∧
      ∀ k ≠ l, LawfulStore.at? removed k = LawfulStore.at? files k
  place?_remove {files removed : σ} {path : String}
    (h : FileStore.remove files path = .ok removed) (other : String) :
    LawfulStore.place? removed other = LawfulStore.place? files other

namespace Disk.Tree

variable {t u : Tree} {l : Location} {path : String} {content : Bytes}

theorem ne_root_of_find? (t : Tree) (h : t.find? l ≠ some .directory) : l ≠ [] := by
  rintro rfl
  exact h (by simp [find?])

theorem find?_drop_self (t : Tree) (h : l ≠ []) : (t.drop l).find? l = none := by
  rw [find?, if_neg h, drop, List.lookup_eq_none_iff]
  intro p hp
  have hne : p.1 ≠ l := by simpa using (List.mem_filter.mp hp).2
  exact bne_iff_ne.mpr hne.symm

theorem follow_cons_of_directory (h : t.find? l = some .directory) (name : String)
    (names : List String) : t.follow l (name :: names) =
      if maxNameSize < name.utf8ByteSize then .error .nameTooLong
      else t.follow (step l name) names := by
  rw [follow, h]

theorem toOption_follow_cons_of_ne (h : t.find? l ≠ some .directory) (name : String)
    (names : List String) : (t.follow l (name :: names)).toOption = none := by
  rw [follow]
  split
  · exact absurd ‹_› h
  · rfl
  · rfl

/-- Two trees with the same directories, and the same one to start from. -/
structure SameDirectories (t u : Tree) : Prop where
  here : t.here = u.here
  find? : ∀ l, t.find? l = some .directory ↔ u.find? l = some .directory

namespace SameDirectories

/-- Only directories are passed on the way along a path. What stops it may be told in other
words. -/
theorem follow (h : SameDirectories t u) (l : Location) (names : List String) :
    (t.follow l names).toOption = (u.follow l names).toOption := by
  induction names generalizing l with
  | nil => rfl
  | cons name names ih =>
    -- Either both trees have a directory here, or neither is followed any further.
    by_cases hl : t.find? l = some .directory
    · rw [follow_cons_of_directory hl, follow_cons_of_directory ((h.find? l).mp hl)]
      split
      · rfl
      · exact ih (step l name)
    · have hu : u.find? l ≠ some .directory := fun hu => hl ((h.find? l).mpr hu)
      rw [toOption_follow_cons_of_ne hl, toOption_follow_cons_of_ne hu]

theorem locate (h : SameDirectories t u) (path : String) :
    (t.locate path).toOption = (u.locate path).toOption := by
  unfold Tree.locate
  split
  · rfl
  · rename_i p _
    split
    · rfl
    · split
      · rfl
      · have hfollow := h.follow (if p.absolute then [] else t.here) p.names
        rw [← h.here]
        generalize t.follow _ _ = a at hfollow ⊢
        generalize u.follow _ _ = b at hfollow ⊢
        cases a <;> cases b <;> simp_all [Except.toOption, Except.map]

theorem put (h : t.find? l ≠ some .directory) (content : Bytes) :
    SameDirectories t (t.put l (.file content)) where
  here := rfl
  find? k := by
    by_cases hk : k = l
    · subst hk
      simp [h, find?_put_self t (ne_root_of_find? t h)]
    · rw [find?_put_of_ne t hk]

theorem drop (h : t.find? l ≠ some .directory) : SameDirectories t (t.drop l) where
  here := rfl
  find? k := by
    by_cases hk : k = l
    · subst hk
      simp [h, find?_drop_self t (ne_root_of_find? t h)]
    · rw [find?_drop_of_ne t hk]

end SameDirectories

/-- The location that a path leads to, if nothing is in the way. -/
def locationOf (t : Tree) (path : String) : Option Location :=
  (t.locate path).toOption.map Prod.fst

theorem SameDirectories.locationOf (h : SameDirectories t u) (path : String) :
    u.locationOf path = t.locationOf path := by
  rw [Tree.locationOf, Tree.locationOf, h.locate]

theorem locate_eq_ok_iff (t : Tree) (path : String) (located : Location × Bool) :
    t.locate path = .ok located ↔ (t.locate path).toOption = some located := by
  cases t.locate path <;> simp [Except.toOption]

/-- A write that is not refused goes to one location, at which there is no directory. -/
theorem write_eq_ok (h : t.write path content = .ok u) : ∃ l, t.locate path = .ok (l, false) ∧
    t.find? l ≠ some .directory ∧ u = t.put l (.file content) := by
  unfold write at h
  cases hloc : t.locate path with
  | error e =>
    rw [hloc] at h
    cases h
  | ok located =>
    obtain ⟨l, mustBeDirectory⟩ := located
    simp only [hloc, bind, Except.bind] at h
    split at h
    · cases h
    · rename_i hfree
      simp only [Bool.or_eq_true, decide_eq_true_eq, not_or, Bool.not_eq_true] at hfree
      obtain ⟨rfl, hl⟩ := hfree
      exact ⟨l, rfl, hl, (Except.ok.inj h).symm⟩

/-- A removal that is not refused goes to the file at one location. -/
theorem remove_eq_ok (h : t.remove path = .ok u) : ∃ l content, t.locate path = .ok (l, false) ∧
    t.find? l = some (.file content) ∧ u = t.drop l := by
  unfold remove at h
  cases hloc : t.locate path with
  | error e =>
    rw [hloc] at h
    cases h
  | ok located =>
    obtain ⟨l, mustBeDirectory⟩ := located
    simp only [hloc, bind, Except.bind] at h
    split at h
    · cases h
    · rename_i content hfile
      split at h
      · cases h
      · rename_i hfree
        obtain rfl : mustBeDirectory = false := by simpa using hfree
        exact ⟨l, content, rfl, hfile, (Except.ok.inj h).symm⟩
    · cases h

theorem remove_of_file (hloc : t.locate path = .ok (l, false))
    (hfile : t.find? l = some (.file content)) : t.remove path = .ok (t.drop l) := by
  simp only [remove, hloc, hfile, bind, Except.bind]
  rfl

theorem locationOf_of_locate {mustBeDirectory : Bool}
    (h : t.locate path = .ok (l, mustBeDirectory)) : t.locationOf path = some l := by
  rw [locationOf, h]
  rfl

theorem locate_of_locationOf (h : t.locationOf path = some l) :
    ∃ mustBeDirectory, t.locate path = .ok (l, mustBeDirectory) := by
  obtain ⟨⟨k, mustBeDirectory⟩, hloc, rfl⟩ := Option.map_eq_some_iff.mp h
  exact ⟨mustBeDirectory, (locate_eq_ok_iff t path _).mpr hloc⟩

/-- Whether a path can only mean a directory shows in the path alone. -/
theorem trailing_of_locate {mustBeDirectory : Bool}
    (h : t.locate path = .ok (l, mustBeDirectory)) :
    (Path.ofString? path).map Path.trailing = some mustBeDirectory := by
  unfold locate at h
  cases hp : Path.ofString? path with
  | none =>
    rw [hp] at h
    cases h
  | some p =>
    simp only [hp] at h
    split at h
    · cases h
    · split at h
      · cases h
      · generalize t.follow _ _ = followed at h
        cases followed with
        | error e => cases h
        | ok k => exact congrArg (some ·.2) (Except.ok.inj h)

theorem pathExists_eq_true (h : t.pathExists path = true) :
    ∃ l e, t.locationOf path = some l ∧ t.find? l = some e := by
  unfold pathExists at h
  cases hloc : t.locate path with
  | error e =>
    rw [hloc] at h
    cases h
  | ok located =>
    obtain ⟨l, mustBeDirectory⟩ := located
    cases hfile : t.find? l with
    | none => simp [hloc, hfile] at h
    | some e => exact ⟨l, e, locationOf_of_locate hloc, hfile⟩

theorem read_of_file (hloc : t.locate path = .ok (l, false))
    (hfile : t.find? l = some (.file content)) : t.read path = .ok content := by
  simp only [read, hloc, hfile, bind, Except.bind]
  rfl

theorem read_eq_ok (h : t.read path = .ok content) :
    ∃ l, t.locate path = .ok (l, false) ∧ t.find? l = some (.file content) := by
  unfold read at h
  cases hloc : t.locate path with
  | error e =>
    rw [hloc] at h
    cases h
  | ok located =>
    obtain ⟨l, mustBeDirectory⟩ := located
    simp only [hloc, bind, Except.bind] at h
    split at h
    · cases h
    · rename_i found hfile
      split at h
      · cases h
      · rename_i hfree
        obtain rfl : mustBeDirectory = false := by simpa using hfree
        obtain rfl : found = content := Except.ok.inj h
        exact ⟨l, rfl, hfile⟩
    · cases h

theorem read_congr (h : t.locationOf path = some l) (h' : u.locationOf path = some l)
    (hfind : u.find? l = t.find? l) : u.read path = t.read path := by
  obtain ⟨mustBeDirectory, hloc⟩ := locate_of_locationOf h
  obtain ⟨mustBeDirectory', hloc'⟩ := locate_of_locationOf h'
  obtain rfl : mustBeDirectory = mustBeDirectory' :=
    Option.some.inj ((trailing_of_locate hloc).symm.trans (trailing_of_locate hloc'))
  rw [read, read, hloc, hloc']
  simp only [bind, Except.bind, hfind]

theorem locate_written (h : t.locate path = .ok (l, false)) (hl : t.find? l ≠ some .directory)
    (content : Bytes) : (t.put l (.file content)).locate path = .ok (l, false) := by
  rw [locate_eq_ok_iff, ← (SameDirectories.put hl content).locate path, ← locate_eq_ok_iff, h]

instance : LawfulStore Tree where
  Place := Location
  place? := locationOf
  at? := find?
  at?_write := by
    intro t u path content h
    obtain ⟨l, hloc, hl, rfl⟩ := write_eq_ok h
    exact ⟨l, locationOf_of_locate hloc, find?_put_self t (ne_root_of_find? t hl) _,
      fun k hk => find?_put_of_ne t hk _⟩
  place?_write := by
    intro t u path content h other
    obtain ⟨l, _, hl, rfl⟩ := write_eq_ok h
    exact (SameDirectories.put hl content).locationOf other
  pathExists_eq_true := Tree.pathExists_eq_true
  read_eq_ok := by
    intro t path content h
    obtain ⟨l, hloc, hfile⟩ := Tree.read_eq_ok h
    exact ⟨l, locationOf_of_locate hloc, hfile⟩
  read_written := by
    intro t u path content h
    obtain ⟨l, hloc, hl, rfl⟩ := write_eq_ok h
    have hfile := find?_put_self t (ne_root_of_find? t hl) (.file content)
    exact read_of_file (locate_written hloc hl content) hfile
  read_congr := Tree.read_congr

instance : LawfulRemoval Tree where
  remove_written := by
    intro t u path content h
    obtain ⟨l, hloc, hl, rfl⟩ := write_eq_ok h
    have hfile := find?_put_self t (ne_root_of_find? t hl) (.file content)
    exact ⟨_, remove_of_file (locate_written hloc hl content) hfile⟩
  at?_remove := by
    intro t u path h
    obtain ⟨l, content, hloc, hl, rfl⟩ := remove_eq_ok h
    have hroot : l ≠ [] := ne_root_of_find? t (by simp [hl])
    exact ⟨l, locationOf_of_locate hloc, find?_drop_self t hroot, fun k hk => find?_drop_of_ne t hk⟩
  place?_remove := by
    intro t u path h other
    obtain ⟨l, content, _, hl, rfl⟩ := remove_eq_ok h
    have hfree : t.find? l ≠ some .directory := by simp [hl]
    exact (SameDirectories.drop hfree).locationOf other

end Disk.Tree

end LexicalAnalyzer
