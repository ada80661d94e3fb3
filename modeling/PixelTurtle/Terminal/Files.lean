/-
PixelTurtle.Terminal.Files — the files a command reads, as a table.

Commands are functions of the contents of the files they name, so whoever
carries them out first collects those contents. `Files.ofFolder` finds
them in one folder: a path is walked name by name, and the first name that
cannot be entered decides the fault.
-/
import PixelTurtle.Text.Blank

namespace PixelTurtle.Terminal

/-- Why a file cannot be read as text. -/
inductive ReadFault where
  | notFound
  | isDirectory
  /-- Part of the path is a file where a folder is needed. -/
  | notDirectory
  | nameTooLong
  /-- The path has a character that no path can have. -/
  | nulInPath
  | notText
  | other (message : String)
  deriving DecidableEq

/-- The wording of a read fault. -/
def ReadFault.message : ReadFault → String
  | notFound => "No such file or directory (os error 2)"
  | isDirectory => "Is a directory (os error 21)"
  | notDirectory => "Not a directory (os error 20)"
  | nameTooLong => "File name too long (os error 36)"
  | nulInPath => "file name contained an unexpected NUL byte"
  | notText => "stream did not contain valid UTF-8"
  | other message => message

/-- What reading a file gives. -/
abbrev Files := String → Except ReadFault String

/-! ## Paths -/

/-- The most bytes that a name on a path can have. -/
def maxNameBytes : Nat := 255

/-- The most bytes that a path can have. -/
def maxPathBytes : Nat := 4095

/-- Where a path leads. -/
inductive Place where
  /-- The folder that relative paths start from. -/
  | here
  /-- A folder around it. No file is known there. -/
  | around
  | file (bytes : ByteArray)

namespace Place

/-- Where a path starts. -/
def start (path : String) : Place :=
  if path.startsWith "/" then around else here

/-- Enter one name on a path, `entries` being the files of the folder.
Nothing can be entered from a file, and a folder around the top folder is
the top folder itself. -/
def enter (entries : List (String × ByteArray)) : Place → String → Except ReadFault Place
  | file _, _ => .error .notDirectory
  | place, "" => .ok place
  | place, "." => .ok place
  | _, ".." => .ok around
  | place, name =>
      if maxNameBytes < name.utf8ByteSize then .error .nameTooLong
      else
        match place, entries.lookup name with
        | here, some bytes => .ok (file bytes)
        | _, _ => .error .notFound

end Place

namespace Files

/-- Decode the bytes of a file. -/
def decode (bytes : ByteArray) : Except ReadFault String :=
  match String.fromUTF8? bytes with
  | some text => .ok text
  | none => .error .notText

/-- The names on a path. A slash at the end is followed by an empty
name. -/
def names (path : String) : List String :=
  (Text.pieces (· == '/') path.toList).map String.ofList

/-- The files of a folder that has no folders in it. Paths start from that
folder. -/
def ofFolder (entries : List (String × ByteArray)) : Files := fun path =>
  if path.isEmpty then .error .notFound
  else if path.toList.contains '\x00' then .error .nulInPath
  else if maxPathBytes < path.utf8ByteSize then .error .nameTooLong
  else do
    match ← (names path).foldlM (Place.enter entries) (Place.start path) with
    | .file bytes => decode bytes
    | _ => .error .isDirectory

/-- Files that were tried before. -/
def ofTable (entries : List (String × Except ReadFault String)) : Files := fun name =>
  (entries.lookup name).getD (.error .notFound)

end Files

end PixelTurtle.Terminal
