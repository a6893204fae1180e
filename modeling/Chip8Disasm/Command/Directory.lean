import Chip8Disasm.Command.FileSystem
import Chip8Disasm.Index

/-! The file system of one directory. It has files in it and no directories. A path that leads out of it finds
    directories only, which have no files and which take none. -/

namespace Chip8Disasm.Command

namespace FileError

def missing : FileError :=
  ⟨"No such file or directory", 2⟩

def denied : FileError :=
  ⟨"Permission denied", 13⟩

def notDirectory : FileError :=
  ⟨"Not a directory", 20⟩

def isDirectory : FileError :=
  ⟨"Is a directory", 21⟩

def nameTooLong : FileError :=
  ⟨"File name too long", 36⟩

end FileError

structure Directory where
  files : List (String × List UInt8)
deriving DecidableEq

inductive Place where
  /-- To a directory. -/
  | directory
  /-- To a name in this directory, whether or not a file has it. -/
  | file (name : String)
  /-- To a name outside, which no file has. -/
  | outside
  /-- To a name with slashes behind it, which only a directory can have. Who looks there meets the failure. -/
  | slashed (e : FileError)
  /-- Nowhere. -/
  | nowhere (e : FileError)
deriving DecidableEq

namespace Directory

/-! ### Paths -/

def nameLimit : Nat :=
  255

def pathLimit : Nat :=
  4095

/-- What stops a path that goes on through a name, as no name here is one of a directory. -/
def obstacle (name : String) (d : Directory) : FileError :=
  if nameLimit < name.utf8ByteSize then .nameTooLong
  else if (Index.get? name d.files).isSome then .notDirectory
  else .missing

/-- Follows the names of a path from this directory, or from outside. A dot and the gap between two slashes stay where
    they are, and two dots lead outside. -/
def follow (d : Directory) (inside : Bool) : List String → Place
  | [] => .directory
  | name :: rest =>
    if name = "" ∨ name = "." then d.follow inside rest
    else if name = ".." then d.follow false rest
    else if rest = [] then
      if nameLimit < name.utf8ByteSize then .nowhere .nameTooLong else if inside then .file name else .outside
    else
      let e := (if inside then d else ⟨[]⟩).obstacle name
      if rest.all String.isEmpty then .slashed e else .nowhere e

/-- Follows a path, which starts outside if a slash comes first. -/
def locate (path : String) (d : Directory) : Place :=
  if path = "" then .nowhere .missing
  else if pathLimit < path.utf8ByteSize then .nowhere .nameTooLong
  else d.follow (path.toList.head? ≠ some '/') ((path.toList.splitOnP fun c => c = '/').map String.ofList)

/-! ### Reading and writing -/

/-- Everything that the file at a path holds. -/
def load (path : String) (d : Directory) : Except FileError (List UInt8) :=
  match d.locate path with
  | .directory => .error .isDirectory
  | .outside => .error .missing
  | .slashed e => .error e
  | .nowhere e => .error e
  | .file name =>
    match Index.get? name d.files with
    | none => .error .missing
    | some bytes => .ok bytes

/-- Opens a path to read from it. A directory can be opened, but not read. -/
def source (path : String) (d : Directory) : Except FileError Source :=
  match d.locate path with
  | .directory => .ok [.fail ⟨.other, FileError.isDirectory.message⟩]
  | .outside => .error .missing
  | .slashed e => .error e
  | .nowhere e => .error e
  | .file name =>
    match Index.get? name d.files with
    | none => .error .missing
    | some bytes => .ok (.ofBytes bytes)

/-- Makes an empty file of the one at a path. A slash behind a name asks for a directory, which no file can take the
    place of. -/
def create (path : String) (d : Directory) : Except FileError (String × Directory) :=
  match d.locate path with
  | .directory => .error .isDirectory
  | .outside => .error .denied
  | .slashed _ => .error .isDirectory
  | .nowhere e => .error e
  | .file name => .ok (name, ⟨Index.put name [] d.files⟩)

/-- Puts bytes behind those that the file of a name holds. -/
def write (name : String) (bytes : List UInt8) (d : Directory) : Directory :=
  ⟨Index.put name ((Index.get? name d.files).getD [] ++ bytes) d.files⟩

def system : FileSystem Directory String :=
  ⟨load, source, create, write⟩

end Directory

end Chip8Disasm.Command
