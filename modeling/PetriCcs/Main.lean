import PetriCcs.Program

/-! # Command line

Runs the program on the file system with the arguments of the process and the flags in its
environment. -/

namespace PetriCcs

/-- What an error of the file system is to the program. -/
def FileError.ofIO : IO.Error → FileError
  | .noFileOrDirectory .. => .notFound
  | .inappropriateType _ code _ => if code = 21 then .isADirectory else .notADirectory
  | error => .other (toString error)

/-- An action on a path with its failure as a value; refused paths fail before the action. -/
def onPath {α : Type} (path : String) (action : IO α) : IO (Except FileError α) := do
  match FileError.ofPath? path with
  | some error => return .error error
  | none =>
    try
      return .ok (← action)
    catch error =>
      return .error (.ofIO error)

/-- The file system of the process.  A path is there when it can be opened, or when the reason
why it cannot is neither its absence nor the path itself. -/
def fileSystem : FileAccess IO where
  read path := onPath path (IO.FS.readFile path)
  write path text := onPath path (IO.FS.writeFile path text)
  exists? path := do
    match ← onPath path (IO.FS.Handle.mk path .read) with
    | .ok _ => return true
    | .error .notFound | .error .notADirectory | .error .nameTooLong | .error .nulInPath =>
      return false
    | .error _ => return true
  makeDirectories path := onPath path do
    unless path.isEmpty do IO.FS.createDirAll path

/-- The stream of a random key. -/
def entropy : IO ChaCha.Stream := do
  let bytes ← IO.getRandomBytes 32
  let byte (i : Nat) : UInt32 := (bytes.data.getD i 0).toUInt32
  let word (i : Fin 8) : UInt32 :=
    byte (4 * i) ||| (byte (4 * i + 1) <<< 8) ||| (byte (4 * i + 2) <<< 16) |||
      (byte (4 * i + 3) <<< 24)
  return { key := Vector.ofFn word }

end PetriCcs

open PetriCcs in
def main (args : List String) : IO UInt32 := do
  let flags ← IO.getEnv "PN2CCS_FLAGS"
  let outcome ← Program.runFrom (← entropy) fileSystem args flags
  IO.print outcome.stdout
  IO.eprint outcome.stderr
  return outcome.exit
