import LexicalAnalyzer.Proofs.StoreLaws
import LexicalAnalyzer.Settings

/-!
What is asked of the files. A journal keeps every request in its order, beside the files. The
loading of settings asks for nothing but to look at the sources from which settings can come, and it
leaves the files as they are.
-/
namespace LexicalAnalyzer

/-- Something that is asked of a file system. -/
inductive FileRequest where
  | look (path : String)
  | read (path : String)
  | write (path : String) (content : Bytes)
  | remove (path : String)
  deriving DecidableEq, Repr

/-- Files with a journal of what has been asked of them. -/
structure Journal (σ : Type) where
  files : σ
  asked : List FileRequest

namespace Journal

variable {σ α β : Type}

/-- Asks the files for something and notes that in the journal. -/
def noting (request : FileRequest) (operation : StateM σ α) : StateM (Journal σ) α :=
  fun journal =>
    let (answer, files) := operation.run journal.files
    (answer, ⟨files, journal.asked ++ [request]⟩)

instance [FileStore σ] : FileAccess (StateM (Journal σ)) where
  pathExists path := noting (.look path) (FileAccess.pathExists (m := StateM σ) path)
  readFile path := noting (.read path) (FileAccess.readFile (m := StateM σ) path)
  writeFile path content :=
    noting (.write path content) (FileAccess.writeFile (m := StateM σ) path content)
  removeFile path := noting (.remove path) (FileAccess.removeFile (m := StateM σ) path)

/-- The request only looks at one of the paths. -/
def Looks (paths : List String) (request : FileRequest) : Prop :=
  ∃ path ∈ paths, request = .look path ∨ request = .read path

/-- With a journal an activity does what it does without. It looks at no other files than those
under some paths and changes none, and its answer is of a kind. -/
def LooksOnly (paths : List String) (kind : α → Prop) (kept : StateM (Journal σ) α)
    (x : StateM σ α) : Prop :=
  ∀ files asked, ∃ answer more, kind answer ∧ x.run files = (answer, files) ∧
    kept.run ⟨files, asked⟩ = (answer, ⟨files, asked ++ more⟩) ∧ ∀ r ∈ more, Looks paths r

variable {paths : List String} {kind : α → Prop}

theorem looksOnly_pure {answer : α} (h : kind answer) :
    LooksOnly (σ := σ) paths kind (pure answer) (pure answer) :=
  fun files asked => ⟨answer, [], h, rfl, by simp; rfl, by simp⟩

theorem LooksOnly.bind {kept : StateM (Journal σ) α} {x : StateM σ α} {kind' : β → Prop}
    {keptNext : α → StateM (Journal σ) β} {next : α → StateM σ β} (h : LooksOnly paths kind kept x)
    (hnext : ∀ answer, kind answer → LooksOnly paths kind' (keptNext answer) (next answer)) :
    LooksOnly paths kind' (kept >>= keptNext) (x >>= next) := by
  intro files asked
  obtain ⟨a, more, ha, hx, hkept, hmore⟩ := h files asked
  obtain ⟨b, more', hb, hx', hkept', hmore'⟩ := hnext a ha files (asked ++ more)
  refine ⟨b, more ++ more', hb, ?_, ?_, ?_⟩
  · rw [run_bind_of_run hx, hx']
  · rw [run_bind_of_run hkept, hkept', List.append_assoc]
  · exact fun r hr => (List.mem_append.mp hr).elim (hmore r) (hmore' r)

variable [FileStore σ] {path : String}

theorem looksOnly_pathExists (h : path ∈ paths) :
    LooksOnly (σ := σ) paths (fun _ => True) (FileAccess.pathExists path)
      (FileAccess.pathExists path) :=
  fun files asked => ⟨FileStore.pathExists files path, [.look path], trivial, rfl, rfl, by
    simpa [Looks] using h⟩

theorem looksOnly_readFile (h : path ∈ paths) :
    LooksOnly (σ := σ) paths (fun _ => True) (FileAccess.readFile path)
      (FileAccess.readFile path) :=
  fun files asked => ⟨FileStore.read files path, [.read path], trivial, rfl, rfl, by
    simpa [Looks] using h⟩

theorem looksOnly_readTextFile (h : path ∈ paths) :
    LooksOnly (σ := σ) paths (fun _ => True) (readTextFile path) (readTextFile path) := by
  refine (looksOnly_readFile h).bind fun answer _ => ?_
  cases answer with
  | error e => exact looksOnly_pure trivial
  | ok bytes =>
    dsimp only
    cases Utf8.decode? bytes with
    | none => exact looksOnly_pure trivial
    | some text => exact looksOnly_pure trivial

end Journal

namespace Settings

open Journal

variable {σ : Type} [FileStore σ]

theorem looksOnly_loadFrom (read : DocumentReader) {paths : List String} {path : String}
    (h : path ∈ paths) :
    LooksOnly (σ := σ) paths (fun _ => True) (loadFrom path read) (loadFrom path read) := by
  refine (looksOnly_pathExists h).bind fun found _ => ?_
  cases found with
  | false => exact looksOnly_pure trivial
  | true =>
    refine (looksOnly_readTextFile h).bind fun answer _ => ?_
    cases answer <;> exact looksOnly_pure trivial

/-- Where settings can come from. -/
def sources (named userDirectory : Option String) : List String :=
  match named with
  | some path => [path]
  | none => fileName :: (userDirectory.map userFile).toList

theorem looksOnly_findFile (userDirectory : Option String) :
    LooksOnly (σ := σ) (sources none userDirectory)
      (fun found => ∀ path ∈ found, path ∈ sources none userDirectory) (findFile userDirectory)
      (findFile userDirectory) := by
  refine (looksOnly_pathExists (by simp [sources])).bind fun found _ => ?_
  cases found with
  | true => exact looksOnly_pure (by simp [sources])
  | false =>
    cases userDirectory with
    | none => exact looksOnly_pure (by simp)
    | some directory =>
      refine (looksOnly_pathExists (by simp [sources])).bind fun found _ => ?_
      cases found with
      | true => exact looksOnly_pure (by simp [sources])
      | false => exact looksOnly_pure (by simp)

/-- Loading the settings looks at their sources and at nothing else. -/
theorem looksOnly_load (read : DocumentReader) (named userDirectory : Option String) :
    LooksOnly (σ := σ) (sources named userDirectory) (fun _ => True)
      (load named userDirectory read) (load named userDirectory read) := by
  cases named with
  | some path => exact looksOnly_loadFrom read (by simp [sources])
  | none =>
    refine (looksOnly_findFile userDirectory).bind fun found hfound => ?_
    cases found with
    | none => exact looksOnly_pure trivial
    | some path => exact looksOnly_loadFrom read (hfound path rfl)

end Settings

end LexicalAnalyzer
