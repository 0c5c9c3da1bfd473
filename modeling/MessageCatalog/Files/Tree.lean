import MessageCatalog.Files.Access
import MessageCatalog.Text.Basic

/-!
A tree of files in memory. A path is walked from the root of the tree name by name, and every name
but the last has to be that of a directory.
-/
namespace MessageCatalog

/-- The files and directories of a tree, each under the names that lead to it. -/
structure FileTree where
  files : List (List String × ByteArray)
  directories : List (List String)

namespace FileTree

def empty : FileTree := ⟨[], []⟩

variable (tree : FileTree)

def file? (place : List String) : Option ByteArray := tree.files.lookup place

def isDirectory (place : List String) : Bool := place.isEmpty || tree.directories.contains place

def walk (place : List String) : List String → Except FileError (List String)
  | [] => .ok place
  | name :: rest =>
      if tree.isDirectory place then
        if name = "" ∨ name = "." then walk place rest
        else if name = ".." then
          if place.isEmpty then .error .notFound else walk place.dropLast rest
        else walk (place ++ [name]) rest
      else if (tree.file? place).isSome then .error .notDirectory
      else .error .notFound

def locate (p : Path) : Except FileError (List String) :=
  if p.toList.contains '\x00' then .error .invalidName
  else if p.isEmpty || Path.isAbsolute p then .error .notFound
  else tree.walk [] ((Text.splitAll '/' p.toList).map String.ofList)

def status (p : Path) : Except FileError FileStatus := do
  let place ← tree.locate p
  match tree.file? place with
  | some image => return ⟨.file, image.size⟩
  | none => if tree.isDirectory place then return .directory else throw .notFound

def read (p : Path) : Except FileError ByteArray := do
  let place ← tree.locate p
  match tree.file? place with
  | some image => return image
  | none => if tree.isDirectory place then throw .isDirectory else throw .notFound

def access : Files := ⟨tree.status, tree.read⟩

/-- The place of a path in which every name is read as it stands. -/
def place (p : Path) : List String :=
  ((Text.splitAll '/' p.toList).map String.ofList).filter fun name => name != "" && name != "."

/-- The tree with a directory at a place, and with all directories above it. -/
def makeDirectory (place : List String) : FileTree :=
  let above := (List.range (place.length + 1)).map place.take
  { tree with directories := above.filter (!tree.isDirectory ·) ++ tree.directories }

def write (p : Path) (image : ByteArray) : FileTree :=
  let place := FileTree.place p
  let tree := tree.makeDirectory place.dropLast
  { tree with files := (place, image) :: tree.files.filter (·.1 != place) }

def remove (p : Path) : FileTree :=
  let place := FileTree.place p
  { tree with files := tree.files.filter (·.1 != place) }

end FileTree

end MessageCatalog
