import MessageCatalog.Text.Escape

/-! The commands, and how they are read from arguments. -/
namespace MessageCatalog.Command

inductive UsageError
  | unknown
  | missingValue (flag : String)
  | notInteger (flag value : String)
  | unpairedPlural
  | emptyRange
deriving DecidableEq, Repr

def usage : String :=
  "usage: mo-i18n inspect --catalog <path> [--json]\n" ++
  "       mo-i18n lookup --catalog <path> --key <msgid> [--plural <msgid_plural> --count <n>]\n" ++
  "       mo-i18n dump --catalog <path>\n" ++
  "       mo-i18n plural --expr <expression> [--from <n>] [--to <n>]\n" ++
  "       mo-i18n languages [--name <id>]\n" ++
  "       mo-i18n resolve [--config <path>] [--language <id>...]"

namespace UsageError

def detail? : UsageError → Option String
  | unknown => none
  | missingValue flag => some (flag ++ " requires a value")
  | notInteger flag value => some (flag ++ " expects an integer, got " ++ Text.quote value)
  | unpairedPlural => some "--plural and --count go together"
  | emptyRange => some "--to must not be below --from"

def message (e : UsageError) : String :=
  match e.detail? with
  | some detail => detail ++ "\n\n" ++ usage
  | none => usage

end UsageError

inductive Flag (α : Type)
  | switch (set : α → α)
  | text (set : String → α → α)
  | number (set : Int64 → α → α)

/-- Reads flags with their values from left to right; a later value replaces an earlier one. -/
def scan {α : Type} (flag? : String → Option (Flag α)) (options : α) :
    List String → Except UsageError α
  | [] => .ok options
  | name :: rest =>
      match flag? name, rest with
      | none, _ => .error .unknown
      | some (.switch set), rest => scan flag? (set options) rest
      | some (.text _), [] | some (.number _), [] => .error (.missingValue name)
      | some (.text set), value :: rest => scan flag? (set value options) rest
      | some (.number set), value :: rest =>
          match Text.readInt64? value.toList with
          | none => .error (.notInteger name value)
          | some n => scan flag? (set n options) rest

def required {α : Type} : Option α → Except UsageError α
  | some a => .ok a
  | none => .error .unknown

/-! The options of the commands that have more than one, as far as they are read, and what their
flags do to them. -/

structure InspectOptions where
  catalog : Option String := none
  json : Bool := false

def InspectOptions.flag? : String → Option (Flag InspectOptions)
  | "--catalog" => some (.text fun v o => { o with catalog := some v })
  | "--json" => some (.switch fun o => { o with json := true })
  | _ => none

structure LookupOptions where
  catalog : Option String := none
  key : Option String := none
  plural : Option String := none
  count : Option Int64 := none

def LookupOptions.flag? : String → Option (Flag LookupOptions)
  | "--catalog" => some (.text fun v o => { o with catalog := some v })
  | "--key" => some (.text fun v o => { o with key := some v })
  | "--plural" => some (.text fun v o => { o with plural := some v })
  | "--count" => some (.number fun n o => { o with count := some n })
  | _ => none

structure PluralOptions where
  expr : Option String := none
  first : Int64 := 0
  last : Int64 := 20

def PluralOptions.flag? : String → Option (Flag PluralOptions)
  | "--expr" => some (.text fun v o => { o with expr := some v })
  | "--from" => some (.number fun n o => { o with first := n })
  | "--to" => some (.number fun n o => { o with last := n })
  | _ => none

structure ResolveOptions where
  config : String := "mo-i18n.toml"
  languages : List String := []

def ResolveOptions.flag? : String → Option (Flag ResolveOptions)
  | "--config" => some (.text fun v o => { o with config := v })
  | "--language" => some (.text fun v o => { o with languages := o.languages ++ [v] })
  | _ => none

end Command

inductive Command
  | inspect (catalog : String) (json : Bool)
  | lookup (catalog key : String) (plural : Option (String × Int64))
  | dump (catalog : String)
  | plural (expr : String) (first last : Int64)
  | languages (id : Option String)
  | resolve (config : String) (languages : List String)
deriving DecidableEq, Repr

namespace Command

def readInspect (args : List String) : Except UsageError Command := do
  let options ← scan InspectOptions.flag? {} args
  return .inspect (← required options.catalog) options.json

def readLookup (args : List String) : Except UsageError Command := do
  let options ← scan LookupOptions.flag? {} args
  let catalog ← required options.catalog
  let key ← required options.key
  match options.plural, options.count with
  | some other, some count => return .lookup catalog key (some (other, count))
  | none, none => return .lookup catalog key none
  | _, _ => throw .unpairedPlural

def readDump (args : List String) : Except UsageError Command := do
  let catalog ← scan (fun
    | "--catalog" => some (.text fun v _ => some v)
    | _ => none) none args
  return .dump (← required catalog)

def readPlural (args : List String) : Except UsageError Command := do
  let options ← scan PluralOptions.flag? {} args
  let expr ← required options.expr
  if options.last < options.first then throw .emptyRange
  return .plural expr options.first options.last

def readLanguages (args : List String) : Except UsageError Command := do
  let id ← scan (fun
    | "--name" => some (.text fun v _ => some v)
    | _ => none) none args
  return .languages id

def readResolve (args : List String) : Except UsageError Command := do
  let options ← scan ResolveOptions.flag? {} args
  return .resolve options.config options.languages

def read : List String → Except UsageError Command
  | "inspect" :: args => readInspect args
  | "lookup" :: args => readLookup args
  | "dump" :: args => readDump args
  | "plural" :: args => readPlural args
  | "languages" :: args => readLanguages args
  | "resolve" :: args => readResolve args
  | _ => .error .unknown

end Command

end MessageCatalog
