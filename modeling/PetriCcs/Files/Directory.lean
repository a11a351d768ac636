import PetriCcs.Files.Access

/-! # Directories in memory

A tree of files and directories as a file system, with a current directory in it.  A place is the
list of names that lead there from the root.  A path is followed piece by piece, from the root when
it begins with a slash and from the current directory otherwise. -/

namespace PetriCcs

/-- The files and directories of a tree, by the names that lead there, and its current directory. -/
structure Directory where
  files : List (List String × String) := []
  folders : List (List String) := []
  /-- This directory is there, and so are those above it. -/
  current : List String := ["work"]
  deriving DecidableEq

namespace Directory

/-- What a path leads to. -/
inductive Target where
  | file (place : List String) (text : String)
  | folder (place : List String)
  /-- Nothing yet, but a file could be made there. -/
  | vacant (place : List String)
  | nothing (error : FileError)
  deriving DecidableEq

/-- The place one directory up; the root is above itself. -/
def up (place : List String) : List String := place.dropLast

def isFolder (directory : Directory) (place : List String) : Bool :=
  place.isPrefixOf directory.current || directory.folders.contains place

/-- The place where a path starts. -/
def start (directory : Directory) (path : String) : List String :=
  if Path.isAbsolute path then [] else directory.current

/-- Follows the pieces of a path from a folder. -/
def follow (directory : Directory) : (place : List String) → (pieces : List (List Char)) → Target
  | place, [] => .folder place
  | place, piece :: pieces =>
    if piece = [] || piece = ['.'] then follow directory place pieces
    else if piece = ['.', '.'] then follow directory (up place) pieces
    else
      let next := place ++ [String.ofList piece]
      match directory.files.lookup next with
      | some text => if pieces.isEmpty then .file next text else .nothing .notADirectory
      | none =>
        if directory.isFolder next then follow directory next pieces
        else if pieces.isEmpty then .vacant next
        else .nothing .notFound

/-- What a path leads to; the empty path and refused ones lead nowhere. -/
def find (directory : Directory) (path : String) : Target :=
  match FileError.ofPath? path with
  | some error => .nothing error
  | none =>
    if path.isEmpty then .nothing .notFound
    else directory.follow (directory.start path) (Path.pieces path)

def read (directory : Directory) (path : String) : Except FileError String :=
  match directory.find path with
  | .file _ text => .ok text
  | .folder _ => .error .isADirectory
  | .vacant _ => .error .notFound
  | .nothing error => .error error

/-- Whether a path leads to a file or a directory. -/
def exists? (directory : Directory) (path : String) : Bool :=
  match directory.find path with
  | .file _ _ | .folder _ => true
  | .vacant _ | .nothing _ => false

/-- The directory with a text under a place. -/
def put (directory : Directory) (place : List String) (text : String) : Directory :=
  { directory with files := (place, text) :: directory.files.filter (·.1 ≠ place) }

/-- Writes a file, new or not; the directory it is in has to be there. -/
def write (directory : Directory) (path text : String) : Except FileError Unit × Directory :=
  match directory.find path with
  | .file place _ | .vacant place => (.ok (), directory.put place text)
  | .folder _ => (.error .isADirectory, directory)
  | .nothing error => (.error error, directory)

/-- Makes the directories on the way along the pieces of a path. -/
def make : (place : List String) → (pieces : List (List Char)) → Directory →
    Except FileError Unit × Directory
  | _, [], directory => (.ok (), directory)
  | place, piece :: pieces, directory =>
    if piece = [] || piece = ['.'] then make place pieces directory
    else if piece = ['.', '.'] then make (up place) pieces directory
    else
      let next := place ++ [String.ofList piece]
      if (directory.files.lookup next).isSome then (.error .notADirectory, directory)
      else if directory.isFolder next then make next pieces directory
      else make next pieces { directory with folders := next :: directory.folders }

def makeDirectories (directory : Directory) (path : String) :
    Except FileError Unit × Directory :=
  match FileError.ofPath? path with
  | some error => (.error error, directory)
  | none =>
    if path.isEmpty then (.ok (), directory)
    else make (directory.start path) (Path.pieces path) directory

/-- A directory as a file system. -/
def access : FileAccess (StateM Directory) where
  read path := do return (← get).read path
  write path text := modifyGet (·.write path text)
  exists? path := do return (← get).exists? path
  makeDirectories path := modifyGet (·.makeDirectories path)

/-- The directory with a file under a path, and the directories above the file. -/
def withFile (directory : Directory) (path text : String) : Directory :=
  let (_, directory) := directory.makeDirectories ((Path.parent? path).getD "")
  (directory.write path text).2

/-- The files in the current directory and below it, with their paths from there. -/
def listing (directory : Directory) : List (String × String) :=
  (directory.files.filter fun (place, _) => directory.current.isPrefixOf place).map
    fun (place, text) => ("/".intercalate (place.drop directory.current.length), text)

end Directory
end PetriCcs
