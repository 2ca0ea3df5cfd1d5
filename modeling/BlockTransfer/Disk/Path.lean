import BlockTransfer.Text.Utf8

/-!
# Paths

Paths as they are written, with their components between slashes, and the name that a path gives
to a file.
-/

namespace BlockTransfer.Path

/-- The parts of a text between slashes, of which there is one more than slashes. -/
def split (path : String) : List String :=
  go [] path.toList
where
  /-- Collects the letters of a part, latest first. -/
  go (part : List Char) : List Char → List String
    | [] => [String.ofList part.reverse]
    | c :: cs => if c = '/' then String.ofList part.reverse :: go [] cs else go (c :: part) cs

/-- The components of a path: its parts that are not empty. -/
def components (path : String) : List String :=
  (split path).filter (· ≠ "")

/-- The name of the file that a path leads to: the last component, not counting dots, unless it
leads upwards. -/
def fileName? (path : String) : Option String :=
  match ((components path).filter (· ≠ ".")).getLast? with
  | some name => if name = ".." then none else some name
  | none => none

/-- Whether a path begins at the root. -/
def isAbsolute (path : String) : Bool :=
  path.toList.head? == some '/'

/-- Whether a path ends in a slash. -/
def endsInSlash (path : String) : Bool :=
  path.toList.getLast? == some '/'

/-- The path of a file in a directory. -/
def join (directory name : String) : String :=
  if endsInSlash directory then directory ++ name else directory ++ "/" ++ name

/-- A name from the peer reduced to a name in a directory: backslashes count as slashes. -/
def sanitize? (name : String) : Option String :=
  fileName? (String.ofList (name.toList.map fun c => if c = '\\' then '/' else c))

/-- The greatest length of a component in bytes. -/
def longestName : Nat := 255

/-- The least length in bytes that a path may not have. -/
def pathLimit : Nat := 4096

end BlockTransfer.Path
