import PetriCcs.Document.Format
import PetriCcs.Files.Path

/-! # Access to files

What the program asks of a file system, as a record of four operations in some monad, and the
reading and writing of documents through it.  The format of a document follows from the name of
its file. -/

namespace PetriCcs

/-- Why the file system refuses. -/
inductive FileError where
  | notFound
  | notADirectory
  | isADirectory
  | nameTooLong
  /-- The path holds the character that ends a path for the system. -/
  | nulInPath
  | other (text : String)
  deriving DecidableEq

/-- The wording of the operating system. -/
def FileError.message : FileError → String
  | .notFound => "No such file or directory (os error 2)"
  | .notADirectory => "Not a directory (os error 20)"
  | .isADirectory => "Is a directory (os error 21)"
  | .nameTooLong => "File name too long (os error 36)"
  | .nulInPath => "file name contained an unexpected NUL byte"
  | .other text => text

/-- What the operating system refuses in a path, whatever files there are: a character that it takes
for the end, a component of more than 255 bytes, 4096 bytes or more in all. -/
def FileError.ofPath? (path : String) : Option FileError :=
  if path.toList.contains '\x00' then some .nulInPath
  else if 4096 ≤ path.utf8ByteSize then some .nameTooLong
  else if (Path.pieces path).any fun piece => 255 < (String.ofList piece).utf8ByteSize then
    some .nameTooLong
  else none

/-- A file system. -/
structure FileAccess (m : Type → Type) where
  read : String → m (Except FileError String)
  write : String → String → m (Except FileError Unit)
  /-- Whether there is a file or a directory under a path. -/
  exists? : String → m Bool
  /-- Makes a directory with those above it. -/
  makeDirectories : String → m (Except FileError Unit)

/-- A letter of ASCII in lower case. -/
def lowerLetter (c : Char) : Char := if 'A' ≤ c && c ≤ 'Z' then Char.ofNat (c.toNat + 32) else c

/-- Files with the extension `ron` of any case are RON, all others JSON. -/
def DocumentFormat.ofPath (path : String) : DocumentFormat :=
  if (Path.extension? path).map (·.map lowerLetter) = some ['r', 'o', 'n'] then .ron else .json

namespace FileAccess

variable {m : Type → Type} [Monad m]

/-- Reads the document in a file. -/
def readDocument (files : FileAccess m) (path : String) : m (Except DocumentError Document) := do
  match ← files.read path with
  | .ok text => return Document.parse (.ofPath path) text
  | .error _ => return .error .io

/-- Writes a document into a file. -/
def writeDocument (files : FileAccess m) (path : String) (document : Document) :
    m (Except DocumentError Unit) := do
  match ← files.write path (document.print (.ofPath path)) with
  | .ok () => return .ok ()
  | .error _ => return .error .io

/-- Writes a drawing into a file and makes the directories above it. -/
def writeDrawing (files : FileAccess m) (path : String) (drawing : String) :
    m (Except FileError Unit) := do
  let made ←
    match Path.parent? path with
    | some parent => files.makeDirectories parent
    | none => pure (.ok ())
  match made with
  | .ok () => files.write path drawing
  | .error error => return .error error

end FileAccess
end PetriCcs
