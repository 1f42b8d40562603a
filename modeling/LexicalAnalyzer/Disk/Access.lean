import LexicalAnalyzer.Text.Utf8

/-!
What the analyzer asks of a file system, and the ways in which it can be refused.
-/
namespace LexicalAnalyzer

inductive FileError where
  | notFound | notADirectory | isADirectory | notUtf8
  /-- A name, or the path as a whole, is longer than the system admits. -/
  | nameTooLong
  /-- A path holds the character that no name may hold. -/
  | badName
  /-- Any other refusal, in the words of the system. -/
  | other (text : String)
  deriving DecidableEq, Repr

def FileError.message : FileError → String
  | .notFound => "No such file or directory (os error 2)"
  | .notADirectory => "Not a directory (os error 20)"
  | .isADirectory => "Is a directory (os error 21)"
  | .notUtf8 => "stream did not contain valid UTF-8"
  | .nameTooLong => "File name too long (os error 36)"
  | .badName => "file name contained an unexpected NUL byte"
  | .other text => text

/-- File operations on paths, in a monad that carries the files. -/
class FileAccess (m : Type → Type) where
  /-- Whether a path leads to a file or a directory. -/
  pathExists : String → m Bool
  readFile : String → m (Except FileError Bytes)
  /-- Replaces the content of a file, which is made when there is none. -/
  writeFile : String → Bytes → m (Except FileError Unit)
  removeFile : String → m (Except FileError Unit)

/-- A value that holds files. Looking changes nothing; a change is a new value, or is refused. -/
class FileStore (σ : Type) where
  pathExists : σ → String → Bool
  read : σ → String → Except FileError Bytes
  write : σ → String → Bytes → Except FileError σ
  remove : σ → String → Except FileError σ

/-- Carries out a change; when it is refused everything stays as it was. -/
def FileStore.change {σ : Type} (operation : σ → Except FileError σ) :
    StateM σ (Except FileError Unit) := fun files =>
  match operation files with
  | .ok changed => (.ok (), changed)
  | .error e => (.error e, files)

instance {σ : Type} [FileStore σ] : FileAccess (StateM σ) where
  pathExists path files := (FileStore.pathExists files path, files)
  readFile path files := (FileStore.read files path, files)
  writeFile path content := FileStore.change (FileStore.write · path content)
  removeFile path := FileStore.change (FileStore.remove · path)

/-- Reads a file whose content has to be UTF-8. -/
def readTextFile {m : Type → Type} [Monad m] [FileAccess m] (path : String) :
    m (Except FileError (List Char)) := do
  match ← FileAccess.readFile path with
  | .error e => return .error e
  | .ok bytes =>
    match Utf8.decode? bytes with
    | some text => return .ok text
    | none => return .error .notUtf8

end LexicalAnalyzer
