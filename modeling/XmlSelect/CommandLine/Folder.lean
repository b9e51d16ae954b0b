import XmlSelect.Text.Basic
/-! Files by their paths: names between slashes, of which an empty one and a single dot stay where
they are and two dots go up. A path that starts with a slash starts in the outermost folder, any
other in the folder at hand. -/
namespace XmlSelect

/-- Why a file has no bytes to give. -/
inductive FileError
  | missing
  | notAllowed
  | notFolder
  | isFolder
  | nameTooLong
deriving DecidableEq

def FileError.message : FileError → Text
  | missing => "No such file or directory (os error 2)".toList
  | notAllowed => "Permission denied (os error 13)".toList
  | notFolder => "Not a directory (os error 20)".toList
  | isFolder => "Is a directory (os error 21)".toList
  | nameTooLong => "File name too long (os error 36)".toList

/-- The part of a path up to its last slash: it leads to the folder of a file. -/
def folderPart (path : Text) : Text := (path.reverse.dropWhile (· != '/')).reverse

/-- A path as seen from a folder; one that starts with a slash is the same from everywhere. -/
def pathFrom (folder path : Text) : Text :=
  if path.head? = some '/' then path else folder ++ path

/-- The greatest size in bytes of a name. -/
def maxNameLength : Nat := 255

/-- The greatest size in bytes of a path. -/
def maxPathLength : Nat := 4095

/-- What is known of a folder: files and folders by the names that lead to them, and whether other
folders are around it. -/
structure Folder where
  files : List (List Text × List UInt8)
  folders : List (List Text) := []
  outermost : Bool := false

namespace Folder

/-- What every system has in its outermost folder. -/
def root : Folder where
  files := [(["dev".toList, "null".toList], [])]
  folders := [["tmp".toList]]
  outermost := true

/-- Whether a folder is at a place: one that is known, or one that some file is in. -/
def isFolder (folder : Folder) (place : List Text) : Bool :=
  place.isEmpty || folder.folders.contains place ||
    folder.files.any fun (file, _) => place.isPrefixOf file && place.length < file.length

/-- Where two dots lead to from a place. A walk that leaves the folder has no place in it any more;
from the outermost folder they lead nowhere else. -/
def above? (folder : Folder) (place : List Text) : Option (List Text) :=
  if place.isEmpty && !folder.outermost then none else some place.dropLast

/-- The bytes at the end of a walk that starts at a place. Each step has to be taken in a folder.
Around the folder there are other folders, but no names in them are known. -/
def readFrom (folder : Folder) : Option (List Text) → List Text → Except FileError (List UInt8)
  | none, [] => .error .isFolder
  | none, name :: rest =>
    if name.isEmpty || name == ['.'] || name == ['.', '.'] then folder.readFrom none rest
    else .error (if maxNameLength < Text.byteLength name then .nameTooLong else .missing)
  | some place, [] =>
    match folder.files.lookup place with
    | some bytes => .ok bytes
    | none => .error (if folder.isFolder place then .isFolder else .missing)
  | some place, name :: rest =>
    if (folder.files.lookup place).isSome then .error .notFolder
    else if !folder.isFolder place then .error .missing
    else if name.isEmpty || name == ['.'] then folder.readFrom (some place) rest
    else if name == ['.', '.'] then folder.readFrom (folder.above? place) rest
    else if maxNameLength < Text.byteLength name then .error .nameTooLong
    else folder.readFrom (some (place ++ [name])) rest

/-- The bytes of the file with a path; the empty path leads to none. -/
def read (folder : Folder) (path : Text) : Except FileError (List UInt8) :=
  if path.isEmpty then .error .missing
  else if maxPathLength < Text.byteLength path then .error .nameTooLong
  else (if path.head? = some '/' then root else folder).readFrom (some []) (path.splitOn '/')

end Folder

end XmlSelect
