import Lineage.Table
import Lineage.Text.Number

/-!
# Reading files

A file is read as a text, or there is a reason why not. A folder in memory answers as one on a disk does, so that what depends on files
can be run without a disk. It lies in the folder for temporary files, which is one of the usual folders below the root. They hold nothing
else but the null device.
-/

namespace Lineage

/-- Why a file cannot be read. -/
inductive Unreadable where
  /-- there is no such file -/
  | missing
  /-- there is a folder in its place -/
  | folder
  /-- a part of the path that has parts below it is a file -/
  | throughFile
  /-- the path or a part of it is too long -/
  | longName
  /-- another reason -/
  | other (cause : String)
  deriving DecidableEq, Repr

/-- The reason in the words of the operating system. -/
def Unreadable.message : Unreadable → String
  | .missing => "No such file or directory (os error 2)"
  | .folder => "Is a directory (os error 21)"
  | .throughFile => "Not a directory (os error 20)"
  | .longName => "File name too long (os error 36)"
  | .other cause => cause

/-- How files are read. -/
abbrev Files := String → Except Unreadable String

/-- A folder with files in it and no folders. -/
abbrev Folder := Table String String

namespace Folder

/-- The number of bytes that the name of a file may have. -/
def nameLimit : Nat := 255

/-- The number of bytes that a path may have. -/
def pathLimit : Nat := 4095

/-- The parts of a path, of which empty parts and parts that stay in place are dropped. -/
def partsOf (path : String) : List String :=
  ((path.toList.splitOn '/').map String.ofList).filter fun part => part ≠ "" && part ≠ "."

/-- Whether a path asks for a folder: it ends with a slash, or with a part that stays in place. -/
def asksForFolder (path : String) : Bool :=
  match (path.toList.splitOn '/').getLast? with
  | some last => last = [] || last = ['.']
  | none => false

/-- The folder for temporary files. -/
def temporaryFolder : String := "tmp"

/-- The folders below the root. -/
def usualFolders : List String :=
  ["bin", "boot", "dev", "etc", "home", "lib", "media", "mnt", "opt", "proc", "root", "run", "sbin", "srv", "sys", temporaryFolder,
    "usr", "var"]

/-- A place in front of a path. -/
inductive Place where
  /-- the folder itself -/
  | inside
  /-- the root of all paths -/
  | root
  /-- a folder below the root, with a name -/
  | usual (name : String)
  /-- a file with a text -/
  | file (text : String)
  deriving DecidableEq, Repr

/-- The place that a part of a path leads to, if there is one. -/
def Place.step (f : Folder) : Place → String → Option Place
  | .inside, ".." => some (.usual temporaryFolder)
  | .root, ".." | .usual _, ".." => some .root
  | .inside, part => (f.find? part).map .file
  | .root, part => if part ∈ usualFolders then some (.usual part) else none
  | .usual "dev", "null" => some (.file "")
  | _, _ => none

/-- Reads the file that the parts of a path lead to from a place. -/
def readFrom (f : Folder) (asFolder : Bool) : Place → List String → Except Unreadable String
  | .file text, [] => if asFolder then .error .throughFile else .ok text
  | .file _, _ :: _ => .error .throughFile
  | _, [] => .error .folder
  | place, part :: parts =>
    if nameLimit < part.utf8ByteSize then .error .longName
    else
      match place.step f part with
      | some next => readFrom f asFolder next parts
      | none => .error .missing

/-- Reads the file with a path. -/
def read (f : Folder) (path : String) : Except Unreadable String :=
  if pathLimit < path.utf8ByteSize then .error .longName
  else readFrom f (asksForFolder path) (if path.toList.head? = some '/' then .root else .inside) (partsOf path)

end Folder
end Lineage
