import MessageCatalog.Catalog.Basic
import MessageCatalog.Text.Basic

/-! The fields of a catalog's header entry, one on a line. -/
namespace MessageCatalog

/-- Names and values in the order of the lines. -/
structure Metadata where
  fields : List (String × String)
deriving DecidableEq, Repr, Inhabited

namespace Metadata

/-- The field of a line: a name that is not blank, a colon and a value. -/
def field? (line : List Char) : Option (String × String) := do
  let (name, value) ← Text.splitOnce? ':' line
  let name := Text.trimChars name
  if name.isEmpty then none
  else return (String.ofList name, String.ofList (Text.trimChars value))

def parse (header : Bytes) : Metadata :=
  ⟨(Text.splitAll '\n' (Text.decodeChars header)).filterMap field?⟩

/-- Whether two names differ in the case of ASCII letters at most. -/
def sameName (a b : String) : Bool := a.toList.map Char.toLower == b.toList.map Char.toLower

def get? (m : Metadata) (name : String) : Option String :=
  (m.fields.find? (sameName ·.1 name)).map (·.2)

def languageTeam? (m : Metadata) : Option String := (m.get? "Language-Team").filter (!·.isEmpty)

def language? (m : Metadata) : Option String := (m.get? "Language").filter (!·.isEmpty)

def pluralForms? (m : Metadata) : Option String := m.get? "Plural-Forms"

/-- The first parameter of the content type that names a character set. -/
def charset? (m : Metadata) : Option String := do
  let contentType ← m.get? "Content-Type"
  (Text.splitAll ';' contentType.toList).findSome? fun parameter => do
    let (name, value) ← Text.splitOnce? '=' parameter
    if sameName (String.ofList (Text.trimChars name)) "charset" then
      return String.ofList (Text.trimChars value)
    else none

end Metadata

def Catalog.metadata (c : Catalog) : Metadata := ((c.lookup []).map Metadata.parse).getD ⟨[]⟩

end MessageCatalog
