/-! File paths, which are names between slashes, and what a program sees of the files around it. -/
namespace MessageCatalog

abbrev Path := String

namespace Path

def isAbsolute (p : Path) : Bool := p.toList.head? == some '/'

/-- A path below a directory; an absolute path stands for itself. -/
def join (directory p : Path) : Path :=
  if isAbsolute p || directory.isEmpty then p
  else if directory.toList.getLast? == some '/' then directory ++ p
  else directory ++ "/" ++ p

def dropName (reversed : List Char) : List Char := reversed.dropWhile (· != '/')

/-- Drops slashes, and names that are a single dot, from the end of a path that is written from its
end; a dot at the start of the path stays. -/
def dropIdle : List Char → List Char
  | ['/'] => ['/']
  | '/' :: rest => dropIdle rest
  | '.' :: '/' :: rest => dropIdle ('/' :: rest)
  | s => s

/-- The directory that holds the last name of a path; none for a root or an empty path. -/
def parent? (p : Path) : Option Path :=
  match dropIdle p.toList.reverse with
  | [] | ['/'] => none
  | s => some (String.ofList (dropIdle (dropName s)).reverse)

end Path

inductive FileError
  | notFound
  | notDirectory
  | isDirectory
  | invalidName
  | notText
  | other (message : String)
deriving DecidableEq, Repr

def FileError.message : FileError → String
  | notFound => "No such file or directory (os error 2)"
  | notDirectory => "Not a directory (os error 20)"
  | isDirectory => "Is a directory (os error 21)"
  | invalidName => "file name contained an unexpected NUL byte"
  | notText => "stream did not contain valid UTF-8"
  | other message => message

inductive FileKind
  | file
  | directory
deriving DecidableEq, Repr

structure FileStatus where
  kind : FileKind
  size : Nat
deriving DecidableEq, Repr

/-- The status of a directory, which takes up one block. -/
def FileStatus.directory : FileStatus := ⟨.directory, 4096⟩

/-- The answers to questions about paths, at one moment. -/
structure Files where
  status : Path → Except FileError FileStatus
  read : Path → Except FileError ByteArray

namespace Files

variable (files : Files)

def exists? (p : Path) : Bool := files.status p matches .ok _

def isFile (p : Path) : Bool := files.status p matches .ok ⟨.file, _⟩

def readText (p : Path) : Except FileError String := do
  let image ← files.read p
  match String.fromUTF8? image with
  | some s => return s
  | none => throw .notText

end Files

end MessageCatalog
