import MessageCatalog.Files.Access
import MessageCatalog.Toml.Document

/-! Settings: where catalogs are, and which languages are wanted. -/
namespace MessageCatalog

structure Config where
  catalogDir : Path := "i18n"
  extension : String := "mo"
  languages : List String := []
  fallback : Option String := none
  /-- The checksums of catalogs, by language. -/
  checksums : List (String × String) := []
deriving DecidableEq, Repr

namespace Config

def stringOf? : Toml.Value → Option String
  | .string s => some s
  | _ => none

def stringsOf? : Toml.Value → Option (List String)
  | .array items => items.mapM stringOf?
  | _ => none

/-- A table of strings; a date counts as one with a single entry of a reserved name. -/
def checksumsOf? : Toml.Value → Option (List (String × String))
  | .table _ entries => entries.mapM fun (name, value) => (stringOf? value).map (name, ·)
  | .dateTime text => some [("$__toml_private_datetime", text)]
  | _ => none

/-- The settings with the value of one entry; entries of other names change nothing. -/
def set? (config : Config) (entry : String × Toml.Value) : Option Config :=
  match entry.1 with
  | "catalog_dir" => (stringOf? entry.2).map ({ config with catalogDir := · })
  | "extension" => (stringOf? entry.2).map ({ config with extension := · })
  | "languages" => (stringsOf? entry.2).map ({ config with languages := · })
  | "fallback_language" => (stringOf? entry.2).map ({ config with fallback := some · })
  | "checksums" => (checksumsOf? entry.2).map ({ config with checksums := · })
  | _ => some config

def ofText? (text : String) : Option Config := (Toml.parse? text).bind (·.foldlM set? {})

end Config

end MessageCatalog
