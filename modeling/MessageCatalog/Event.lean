import MessageCatalog.Catalog.Basic
import MessageCatalog.Files.Access

/-! Why a catalog or the settings are not loaded, and what is reported on the way. -/
namespace MessageCatalog

inductive LoadError
  | file (error : FileError)
  | catalog (error : Catalog.Error)
  | settings
  | invalidChecksum
  | checksumMismatch (path : Path)
  | noCatalog (languages : List String)
deriving DecidableEq, Repr

def LoadError.message : LoadError → String
  | file error => "io error: " ++ error.message
  | catalog error => "catalog error: " ++ error.message
  | settings => "toml error: not a document of settings"
  | invalidChecksum => "invalid hash format"
  | checksumMismatch path => "catalog hash mismatch: " ++ path
  | noCatalog languages => "no catalog found for languages: " ++ ", ".intercalate languages

inductive Level
  | debug
  | info
  | warn
deriving DecidableEq, Repr

inductive Event
  | noFile (path : Path)
  | read (path : Path) (size : Nat)
  | rejectedFile (path : Path) (error : LoadError)
  | rejectedImage (error : Catalog.Error)
  | loaded (path : Path) (strings : Nat)
  | declaredRule (rule : Plural.Rule)
  | unusableRule (pluralForms : String)
  | noRule
  | unloaded
  | noMessage (key : String)
  | noPluralMessage (key : String) (count : Int64)
deriving DecidableEq, Repr

namespace Event

def level : Event → Level
  | noFile _ | read _ _ | declaredRule _ | noRule | noMessage _ | noPluralMessage _ _ => .debug
  | loaded _ _ | unloaded => .info
  | rejectedFile _ _ | rejectedImage _ | unusableRule _ => .warn

def title : Event → String
  | noFile _ => "no catalog"
  | read _ _ => "read catalog"
  | rejectedFile _ _ | rejectedImage _ => "rejected catalog"
  | loaded _ _ => "loaded catalog"
  | declaredRule _ => "catalog plural rule"
  | unusableRule _ => "unusable plural rule; using n != 1"
  | noRule => "catalog declares no plural rule; using n != 1"
  | unloaded => "unloaded catalog"
  | noMessage _ => "no translation"
  | noPluralMessage _ _ => "no plural translation"

def fields : Event → List (String × String)
  | noFile path => [("path", path)]
  | read path size => [("path", path), ("len", size.repr)]
  | rejectedFile path error => [("path", path), ("error", error.message)]
  | rejectedImage error => [("error", error.message)]
  | loaded path strings => [("path", path), ("strings", strings.repr)]
  | declaredRule rule => [("forms", rule.forms.toNat.repr), ("expr", rule.expr.text)]
  | unusableRule pluralForms => [("plural_forms", pluralForms)]
  | noRule | unloaded => []
  | noMessage key => [("key", key)]
  | noPluralMessage key count =>
      [("key", key), ("n", String.ofList (Text.decimal count.toInt))]

end Event

/-- A value, and what was reported while it was found. -/
structure Logged (α : Type) where
  value : α
  events : List Event

end MessageCatalog
