import MessageCatalog.Config
import MessageCatalog.Digest.Sha256
import MessageCatalog.Event

/-! Loading catalogs and settings from files. -/
namespace MessageCatalog

namespace Catalog

/-- The image in a file. The size of the file is checked before it is read. -/
def fetch (files : Files) (p : Path) : Except LoadError ByteArray := do
  let status ← (files.status p).mapError .file
  if status.size < minSize then throw (.catalog (.tooSmall status.size))
  if maxSize < status.size then throw (.catalog (.tooLarge status.size))
  (files.read p).mapError .file

def load (files : Files) (p : Path) : Logged (Except LoadError Catalog) :=
  match fetch files p with
  | .error error => ⟨.error error, []⟩
  | .ok image => ⟨(decode image).mapError .catalog, [.read p image.size]⟩

/-- The catalog in a file whose digest is the expected one; the digest is checked first. -/
def loadVerified (files : Files) (p : Path) (expected : String) :
    Logged (Except LoadError Catalog) :=
  match Digest.readChecksum? expected with
  | none => ⟨.error .invalidChecksum, []⟩
  | some digest =>
      match fetch files p with
      | .error error => ⟨.error error, []⟩
      | .ok image =>
          ⟨if Digest.sha256 image = digest then (decode image).mapError .catalog
            else .error (.checksumMismatch p), [.read p image.size]⟩

end Catalog

namespace Config

def load (files : Files) (p : Path) : Except LoadError Config := do
  let text ← (files.readText p).mapError .file
  match ofText? text with
  | some config => return config
  | none => throw .settings

def loadOrDefault (files : Files) (p : Path) : Except LoadError Config :=
  if files.exists? p then load files p else .ok {}

end Config

end MessageCatalog
