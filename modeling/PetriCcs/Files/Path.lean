/-! # Paths

A path is a text whose components are parted by slashes.  Trailing slashes and components of one
dot do not count, except a dot that stands first. -/

namespace PetriCcs
namespace Path

/-- The pieces between slashes. -/
def pieces (path : String) : List (List Char) := path.toList.splitOn '/'

/-- Whether a path starts at the root. -/
def isAbsolute (path : String) : Bool := path.toList.head? = some '/'

/-- The components that count: names, double dots, and a dot that stands first. -/
def components (path : String) : List (List Char) :=
  match pieces path with
  | [] => []
  | first :: rest =>
    (if first.isEmpty then [] else [first]) ++ rest.filter fun piece => piece ≠ [] && piece ≠ ['.']

/-- The last component, when it is a name. -/
def fileName? (path : String) : Option (List Char) :=
  (components path).getLast?.filter fun name => name ≠ ['.'] && name ≠ ['.', '.']

/-- What follows the last dot of a name; none when there is no dot but at its start. -/
def extensionOf (name : List Char) : Option (List Char) :=
  match name.reverse.span (· ≠ '.') with
  | (_, []) => none
  | (_, [_]) => none
  | (reversed, _) => some reversed.reverse

/-- The extension of the last component. -/
def extension? (path : String) : Option (List Char) := fileName? path >>= extensionOf

/-- The path without its last component; none for the root and for the empty path. -/
def parent? (path : String) : Option String :=
  match components path with
  | [] => none
  | all =>
    let text := ['/'].intercalate all.dropLast
    some (String.ofList (if isAbsolute path then '/' :: text else text))

end Path
end PetriCcs
