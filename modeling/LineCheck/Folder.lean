import LineCheck.Failure
import LineCheck.Text.Lines

/-!
Folders held in memory, and reading files from them by a path.

A path is followed component by component, from the folder itself. Every
component but the last has to lead to a folder, and so has the last one if a
slash follows it.
-/

namespace LineCheck

/-- What stands under a name: a file with its bytes, or a folder. -/
inductive FolderEntry where
  | file (bytes : ByteArray)
  | folder

/-- A folder: its entries, by their paths. -/
structure Folder where
  entries : List (String × FolderEntry)

namespace Folder

/-- The components of a path. -/
def components (path : String) : List String :=
  (path.toList.splitOn '/').map String.ofList

/-- The location that a component leads to, from a folder. A location is given
    as the names that lead to it from this folder; those of the folders around
    this one are all `..`. -/
def step (location : List String) (component : String) : List String :=
  if component = "" ∨ component = "." then location
  else if component = ".." ∧ location.all (· == "..") = false then location.dropLast
  else location ++ [component]

/-- The location that a path leads to. -/
def location (path : String) : List String :=
  (components path).foldl step []

/-- What stands at a location. The folders around this one are known to be
    folders only. -/
def entry? (f : Folder) (place : List String) : Option FolderEntry :=
  if place.all (· == "..") then some .folder
  else match f.entries.find? (location ·.1 == place) with
    | some (_, entry) => some entry
    | none => if f.entries.any (place.isPrefixOf <| location ·.1) then some .folder else none

/-- The most bytes that a name may have. -/
def maxNameSize : Nat := 255

/-- The most bytes that a path may have. -/
def maxPathSize : Nat := 4095

/-- Follows components from a location, and reads the file that they lead to. -/
def follow (f : Folder) : List String → List String → Except ReadError ByteArray
  | place, [] =>
    match f.entry? place with
    | some (.file bytes) => .ok bytes
    | some .folder => .error .isDirectory
    | none => .error .notFound
  | place, component :: components =>
    match f.entry? place with
    | some (.file _) => .error .notDirectory
    | some .folder =>
      if maxNameSize < Text.byteSize component.toList then .error .nameTooLong
      else follow f (step place component) components
    | none => .error .notFound

/-- Reads the file at a path. A path that begins with a slash starts at the
    root, which is one of the folders around this one. -/
def read (f : Folder) (path : String) : Except ReadError ByteArray :=
  if path = "" then .error .notFound
  else if '\x00' ∈ path.toList then .error .nulInPath
  else if maxPathSize < Text.byteSize path.toList then .error .nameTooLong
  else f.follow (if path.toList.head? = some '/' then [".."] else []) (components path)

end Folder

end LineCheck
