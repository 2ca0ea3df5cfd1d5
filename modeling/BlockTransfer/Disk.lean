import BlockTransfer.Disk.Path
import BlockTransfer.Error
import BlockTransfer.Time.Timestamp

/-!
# Disks

A tree of directories and files, as a table from locations to nodes. Locations are seen from the
working directory: some steps up, then down by names. What the working directory and those above
it are called is not known, so no path leads back down into them. Below the root stand the usual
directories of a system, which belong to the system, and the null device. Paths are followed name
by name, from the working directory or from the root, and fail as they do in an operating system
with the usual rules. All files belong to the user who reads and writes them, so of their
permissions only those of the owner count.
-/

namespace BlockTransfer

/-- What stands at a location. -/
inductive Node
  | directory
  /-- A file, with the second of its last modification and its permission bits. -/
  | file (contents : Bytes) (modified : Int) (mode : Nat)
  /-- The device that has no contents and takes everything. -/
  | nullDevice
  deriving DecidableEq, Repr

/-- Whether the owner may read what stands there. -/
def Node.isReadable : Node → Bool
  | .directory | .nullDevice => true
  | .file _ _ mode => mode &&& 0o400 != 0

/-- Whether the owner may write to what stands there. A directory is no file to write to. -/
def Node.isWritable : Node → Bool
  | .directory => false
  | .nullDevice => true
  | .file _ _ mode => mode &&& 0o200 != 0

/-- A place in the tree, as the way to it from the working directory. -/
structure Location where
  /-- The number of steps up from the working directory. -/
  up : Nat := 0
  /-- The names on the way down from there. -/
  names : List String
  deriving DecidableEq, Repr

/-- The location of a name in the directory at a location. -/
def Location.child (place : Location) (name : String) : Location :=
  { place with names := place.names ++ [name] }

/-- The directory for temporary files, below the root. -/
def temporaryDirectory : String := "tmp"

/-- The directories that stand below the root of every system. -/
def systemDirectories : List String :=
  ["bin", "boot", "dev", "etc", "home", "lib", "media", "mnt", "opt", "proc", "root", "run", "sbin",
    "srv", "sys", temporaryDirectory, "usr", "var"]

/-- What stands at the names that lead down from the root of every system. -/
def systemNode? (names : List String) : Option Node :=
  match names with
  | [name] => if name ∈ systemDirectories then some .directory else none
  | ["dev", "null"] => some .nullDevice
  | _ => none

/-- A tree of directories and files. -/
structure Disk where
  /-- The number of directories above the working directory, the uppermost being the root. -/
  depth : Nat := 2
  /-- What stands where, except for what is always there: the working directory and those above it,
  and what belongs to the system. -/
  nodes : List (Location × Node) := []

namespace Disk

/-- What stands at a location. -/
def node? (disk : Disk) (place : Location) : Option Node :=
  if place.names = [] then some .directory
  else
    match disk.nodes.lookup place with
    | some node => some node
    | none => if place.up = disk.depth then systemNode? place.names else none

/-- Whether new files may be made in a directory: below the root, only in the one for temporary
files. -/
def isOpenToAll (disk : Disk) (place : Location) : Bool :=
  decide (place.up < disk.depth) || place.names.head? == some temporaryDirectory

/-- The location of the directory above another, which for the root is the root itself. -/
def parent (disk : Disk) (place : Location) : Location :=
  if place.names = [] then ⟨min (place.up + 1) disk.depth, []⟩
  else { place with names := place.names.dropLast }

/-- Whether there is a directory at a location. -/
def isDirectory (disk : Disk) (place : Location) : Bool :=
  disk.node? place == some .directory

/-- Puts a node at a location, in place of what stood there. -/
def put (disk : Disk) (place : Location) (node : Node) : Disk :=
  { disk with nodes := (place, node) :: disk.nodes.filter (·.1 ≠ place) }

/-- What was put at a location stands there, unless it is the working directory or above it. -/
theorem node?_put_self (disk : Disk) {place : Location} (node : Node)
    (h : place.names ≠ []) :
    (disk.put place node).node? place = some node := by
  simp [node?, put, h]

/-- Putting a node at a location leaves the entries of all others as they were. -/
theorem lookup_nodes_put_of_ne (disk : Disk) {place other : Location} (node : Node)
    (h : other ≠ place) :
    (disk.put place node).nodes.lookup other = disk.nodes.lookup other := by
  unfold put
  rw [List.lookup_cons, beq_false_of_ne h]
  induction disk.nodes with
  | nil => rfl
  | cons entry rest ih =>
    by_cases hp : entry.1 = place
    · have hne : other ≠ entry.1 := hp ▸ h
      rw [List.filter_cons_of_neg (by simp [hp]), List.lookup_cons, beq_false_of_ne hne]
      exact ih
    · rw [List.filter_cons_of_pos (by simp [hp]), List.lookup_cons, List.lookup_cons]
      cases other == entry.1
      · exact ih
      · rfl

/-- Putting a node at a location leaves all others as they were. -/
theorem node?_put_of_ne (disk : Disk) {place other : Location} (node : Node) (h : other ≠ place) :
    (disk.put place node).node? other = disk.node? other := by
  unfold node?
  rw [lookup_nodes_put_of_ne disk node h]
  rfl

/-- The location at which the way of a path begins. -/
def start (disk : Disk) (path : String) : Location :=
  ⟨if Path.isAbsolute path then disk.depth else 0, []⟩

/-! ## Building a tree -/

/-- Goes from a location to the one that a component of a path names, and makes a directory there
if nothing stands there yet. -/
def makeStep (state : Location × Disk) (name : String) : Location × Disk :=
  let (place, disk) := state
  if name = "." then state
  else if name = ".." then (disk.parent place, disk)
  else
    let next := place.child name
    (next, if (disk.node? next).isNone then disk.put next .directory else disk)

/-- Makes the directories that are named one after the other. -/
def makeAlong (disk : Disk) (start : Location) (names : List String) : Location × Disk :=
  names.foldl makeStep (start, disk)

/-- Makes the directory of a path and those on the way to it where nothing stands yet. -/
def makeDirectories (disk : Disk) (path : String) : Disk :=
  (disk.makeAlong (disk.start path) (Path.components path)).2

/-- The permission bits of a mode: the lower twelve. -/
def permissionBits (mode : Nat) : Nat :=
  mode % 0o10000

/-- Puts a file at a path, and makes the directories on the way to it where nothing stands
yet. -/
def addFile (disk : Disk) (path : String) (contents : Bytes) (modified : Int) (mode : Nat) : Disk :=
  match (Path.components path).reverse with
  | [] => disk
  | name :: above =>
    let (place, disk) := disk.makeAlong (disk.start path) above.reverse
    disk.put (place.child name) (.file contents modified (permissionBits mode))

/-! ## Following paths -/

/-- Goes from a location to the one that a component of a path names. -/
def enter (disk : Disk) (place : Location) (name : String) : Except OpenFault Location :=
  if ¬disk.isDirectory place then .error .notADirectory
  else if name = "." then .ok place
  else if name = ".." then .ok (disk.parent place)
  else if Path.longestName < (Utf8.encode name).length then .error .nameTooLong
  else
    let next := place.child name
    if (disk.node? next).isSome then .ok next else .error .notFound

/-- Follows components from a location. -/
def follow (disk : Disk) (start : Location) (names : List String) : Except OpenFault Location :=
  names.foldlM disk.enter start

/-- The fault of a path that cannot even be looked up. -/
def malformed? (path : String) : Option OpenFault :=
  if path.toList.contains '\x00' then some .nulInPath
  else if path.isEmpty then some .notFound
  else if Path.pathLimit ≤ (Utf8.encode path).length then some .nameTooLong
  else none

/-- The location of a path and what stands there. A path that ends in a slash leads to a
directory. -/
def resolve (disk : Disk) (path : String) : Except OpenFault (Location × Node) :=
  match malformed? path with
  | some e => .error e
  | none =>
    match disk.follow (disk.start path) (Path.components path) with
    | .error e => .error e
    | .ok place =>
      match disk.node? place with
      | none => .error .notFound
      | some .directory => .ok (place, .directory)
      | some node => if Path.endsInSlash path then .error .notADirectory else .ok (place, node)

/-- Whether a path leads to a directory. -/
def leadsToDirectory (disk : Disk) (path : String) : Bool :=
  match disk.resolve path with
  | .ok (_, .directory) => true
  | _ => false

/-! ## Reading and writing -/

/-- What a path leads to, opened for reading. -/
def openNode (disk : Disk) (path : String) : Except OpenFault Node :=
  match disk.resolve path with
  | .error e => .error e
  | .ok (_, node) => if node.isReadable then .ok node else .error .permissionDenied

/-- The contents of the file that a path leads to. -/
def read (disk : Disk) (path : String) : Except IoError Bytes :=
  match disk.openNode path with
  | .error fault => .error fault.fileError
  -- A directory can be opened; only reading it fails.
  | .ok .directory => .error OpenFault.isADirectory.fileError
  | .ok .nullDevice => .ok []
  | .ok (.file contents _ _) => .ok contents

/-- The reason for which a path cannot be opened as a serial device: nothing in the tree is a
terminal line. -/
def openDevice (disk : Disk) (path : String) : OpenFault :=
  match disk.resolve path with
  | .error fault => fault
  | .ok (_, .directory) => .isADirectory
  | .ok (_, node) =>
    if node.isReadable ∧ node.isWritable then .notATerminal else .permissionDenied

/-- The permission bits of a new file. -/
def newFileMode : Nat := 0o644

/-- The location at which a path would create a file: that of an existing file, or a free one in
an existing directory. -/
def placeFor (disk : Disk) (path : String) : Except OpenFault Location :=
  match malformed? path with
  | some e => .error e
  | none =>
    match (Path.components path).reverse with
    -- Slashes alone lead to a directory.
    | [] => .error .isADirectory
    | last :: above =>
      match disk.follow (disk.start path) above.reverse with
      | .error e => .error e
      | .ok place =>
        if ¬disk.isDirectory place then .error .notADirectory
        else if last = "." ∨ last = ".." ∨ Path.endsInSlash path then .error .isADirectory
        else if Path.longestName < (Utf8.encode last).length then .error .nameTooLong
        else
          match disk.node? (place.child last) with
          | none =>
            if disk.isOpenToAll place then .ok (place.child last) else .error .permissionDenied
          | some .directory => .error .isADirectory
          -- An existing file is taken as it is; creating empties it.
          | some node =>
            if node.isWritable then .ok (place.child last) else .error .permissionDenied

/-- Creates an empty file, or empties an existing one, which keeps its permissions, and gives its
location. There is nothing to empty in a device. -/
def create (disk : Disk) (path : String) : Except OpenFault (Location × Disk) :=
  match disk.placeFor path with
  | .error fault => .error fault
  | .ok place =>
    match disk.node? place with
    | some .nullDevice => .ok (place, disk)
    | some (.file _ _ mode) => .ok (place, disk.put place (.file [] 0 mode))
    | _ => .ok (place, disk.put place (.file [] 0 newFileMode))

/-- Adds data to the file at a location. -/
def append (disk : Disk) (place : Location) (data : Bytes) : Disk :=
  match disk.node? place with
  | some (.file contents modified mode) => disk.put place (.file (contents ++ data) modified mode)
  | _ => disk

/-! ## Listing -/

/-- Whether one list of names comes before another: directories before what is in them, names by
their characters. -/
def before : List String → List String → Bool
  | [], _ => true
  | _ :: _, [] => false
  | a :: as, b :: bs => if a = b then before as bs else decide (a < b)

/-- All that stands below the working directory, by the names that lead to it from there,
directories before what is in them. -/
def listing (disk : Disk) : List (List String × Node) :=
  let inside := disk.nodes.filterMap fun (place, node) =>
    if place.up = 0 then some (place.names, node) else none
  inside.mergeSort fun a b => before a.1 b.1

end Disk

end BlockTransfer
