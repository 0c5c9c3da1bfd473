import MessageCatalog.Catalog.Metadata
import MessageCatalog.Digest.Sha256
import MessageCatalog.Files.Access
import MessageCatalog.Language
import MessageCatalog.Text.Escape

/-! What is written of a catalog: a report of its properties, or its entries line by line. -/
namespace MessageCatalog

structure Report where
  path : Path
  catalog : Catalog

namespace Report

open Text (Json)

variable (r : Report)

def orderName : String :=
  match r.catalog.header.order with
  | .little => "little"
  | .big => "big"

def strategyName : String :=
  match r.catalog.strategy with
  | .hashed => "hashed"
  | .sorted => "sorted"

def language? : Option String := r.catalog.metadata.language?

def languageName? : Option String := r.language?.bind Language.name?

def json : String :=
  let text : Option String → Json
    | some s => .string s
    | none => .null
  let rule := r.catalog.rule
  Json.renderObject [
    ("path", .string r.path),
    ("sha256", .string (Digest.checksum r.catalog.image)),
    ("byte_order", .string r.orderName),
    ("revision", .number r.catalog.header.revision.toNat),
    ("strings", .number r.catalog.size),
    ("strategy", .string r.strategyName),
    ("hash_table_size", .number r.catalog.header.hashSize.toNat),
    ("plural_forms", .number rule.forms.toNat),
    ("plural_expr", .string rule.expr.text),
    ("plural_declared", .boolean rule.declared),
    ("language", text r.language?),
    ("language_name", text r.languageName?),
    ("language_team", text r.catalog.metadata.languageTeam?),
    ("charset", text r.catalog.metadata.charset?)] ++ "\n"

def languageText : String :=
  match r.language?, r.languageName? with
  | some id, some name => id ++ " (" ++ name ++ ")"
  | some id, none => id
  | none, _ => "-"

def text : String :=
  let rule := r.catalog.rule
  "path: " ++ r.path ++ "\n" ++
  "sha256: " ++ Digest.checksum r.catalog.image ++ "\n" ++
  "byte order: " ++ r.orderName ++ "\n" ++
  "revision: " ++ r.catalog.header.revision.toNat.repr ++ "\n" ++
  "strings: " ++ r.catalog.size.repr ++ "\n" ++
  "lookup: " ++ r.strategyName ++
    " (hash table size " ++ r.catalog.header.hashSize.toNat.repr ++ ")\n" ++
  "plural: " ++ rule.forms.toNat.repr ++ " forms, " ++ rule.expr.text ++
    (if rule.declared then " (declared)\n" else " (default)\n") ++
  "language: " ++ r.languageText ++ "\n" ++
  "language team: " ++ r.catalog.metadata.languageTeam?.getD "-" ++ "\n" ++
  "charset: " ++ r.catalog.metadata.charset?.getD "-" ++ "\n"

end Report

/-- An entry on a line: the escaped key, a tab, and the escaped message. -/
def dumpLine (entry : Bytes × Bytes) : String :=
  Text.escapeBytes entry.1 ++ "\t" ++ Text.escapeBytes entry.2 ++ "\n"

def Catalog.dump (c : Catalog) : String := String.join (c.entries.map dumpLine)

end MessageCatalog
