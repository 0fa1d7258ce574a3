import NestedStyles.Fault

/-!
# Files by their paths

What a path leads to, and files and folders that are held in memory.

- `Disk.look`: what a path leads to.
- `Disk.write`: the disk after a file is written.
- `Disk.changes`: the files that are new or different.
-/

namespace NestedStyles

/-- What there is at a path. -/
inductive Found where
  | absent
  | folder
  | file (content : ByteArray)

namespace Path

/-- What stands between the slashes of a path. -/
def names (path : String) : List String := (path.toList.splitOn '/').map String.ofList

def isAbsolute (path : String) : Bool := path.toList.head? == some '/'

/-- The last name of a path. -/
def base (path : String) : String := (names path).getLastD path

/-- The names that lead somewhere else: empty ones and single dots stay where they are. -/
def moves (path : String) : List String := (names path).filter fun name => name != "" && name != "."

/-- The path without the names that lead nowhere. -/
def plain (path : String) : String :=
  let names := "/".intercalate (moves path)
  if isAbsolute path then "/" ++ names else if names = "" then "." else names

end Path

/-- Files and folders, each with the names that lead to it from the root, and the folder `home` in which commands are
run. -/
structure Disk where
  home : List String := []
  files : List (List String × ByteArray) := []
  folders : List (List String) := []

namespace Disk

/-- Where a path begins. -/
def start (d : Disk) (path : String) : List String := if Path.isAbsolute path then [] else d.home

/-- What there is at a place, which is given by its names. -/
def found (d : Disk) (place : List String) : Found :=
  if place.isEmpty then .folder
  else
    match d.files.lookup place with
    | some content => .file content
    | none => if (d.home :: d.folders).any (place.isPrefixOf ·) then .folder else .absent

/-- Why a path leads nowhere. -/
inductive Dead where
  | absent
  | notFolder
deriving DecidableEq, Repr

/-- Follow one name; that needs a folder to be in. The root is its own parent. -/
def follow (d : Disk) (place : List String) (name : String) : Except Dead (List String) :=
  match d.found place with
  | .absent => .error .absent
  | .file _ => .error .notFolder
  | .folder =>
    .ok (if name = "" ∨ name = "." then place else if name = ".." then place.dropLast else place ++ [name])

def walk (d : Disk) (place names : List String) : Except Dead (List String) := names.foldlM d.follow place

def look (d : Disk) (path : String) : Found :=
  if path = "" then .absent
  else
    match d.walk (d.start path) (Path.names path) with
    | .ok place => d.found place
    | .error _ => .absent

/-- The disk with a file of the given content at a place. -/
def put (d : Disk) (place : List String) (content : ByteArray) : Disk :=
  { d with files := (place, content) :: d.files.filter (·.1 != place) }

/-- Write a text to a file, which takes a folder to write it in. -/
def write (d : Disk) (path : String) (text : String) : Except Fault Disk :=
  match d.walk (d.start path) (Path.moves path) with
  | .error .absent => .error (.noSuchFile (Path.plain path))
  | .error .notFolder => .error (.notFolder (Path.plain path))
  | .ok place =>
    match d.found place with
    | .folder => .error (.isFolder (Path.plain path))
    | _ => .ok (d.put place text.toUTF8)

/-- The texts of the files directly in the folder of commands that are new or not what they were before. -/
def changes (before after : Disk) : List (String × String) :=
  after.files.filterMap fun (place, content) =>
    match place.getLast?, String.fromUTF8? content with
    | some name, some text =>
      if place.dropLast != after.home || before.files.lookup place == some content then none else some (name, text)
    | _, _ => none

end Disk

end NestedStyles
