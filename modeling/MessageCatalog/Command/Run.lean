import MessageCatalog.Command.Options
import MessageCatalog.Command.Report
import MessageCatalog.Translator

/-! Running a command against files and an environment. -/
namespace MessageCatalog.Command

inductive Failure
  | usage (error : UsageError)
  | load (error : LoadError)
  | invalidExpression
  | unknownLanguage (id : String)
deriving DecidableEq, Repr

def Failure.message : Failure → String
  | usage error => error.message
  | load error => error.message
  | invalidExpression => "catalog error: invalid plural expression"
  | unknownLanguage id => "unknown language: " ++ id

def inspectCatalog (files : Files) (path : Path) (json : Bool) : Except Failure String := do
  let catalog ← (Catalog.load files path).value.mapError .load
  let report : Report := ⟨path, catalog⟩
  return if json then report.json else report.text

def lookupMessage (files : Files) (path : Path) (key : String) (counted : Option (String × Int64)) :
    Except Failure String := do
  let (translator, loaded) := (Translator.new.loadFile files path).value
  loaded.mapError .load
  let text := match counted with
    | some (other, n) => translator.translatePlural key other n
    | none => translator.translate key
  return text.value ++ "\n"

def dumpCatalog (files : Files) (path : Path) : Except Failure String := do
  let catalog ← (Catalog.load files path).value.mapError .load
  return catalog.dump

def countsFrom (first last : Int64) : List Int64 :=
  (List.range (last.toInt - first.toInt + 1).toNat).map fun (k : Nat) =>
    Int64.ofInt (first.toInt + k)

def tabulate (expr : String) (first last : Int64) : Except Failure String :=
  match Plural.Expr.ofText? expr with
  | none => .error .invalidExpression
  | some e =>
      let number (n : Int64) := String.ofList (Text.decimal n.toInt)
      let line (n : Int64) := number n ++ "\t" ++ number (e.eval n) ++ "\n"
      .ok ("plural=" ++ e.text ++ "\n" ++ String.join ((countsFrom first last).map line))

def listLanguages : Option String → Except Failure String
  | some id =>
      match Language.name? id with
      | some name => .ok (name ++ "\n")
      | none => .error (.unknownLanguage id)
  | none => .ok (String.join (Language.known.map fun l => l.code ++ "\t" ++ l.name ++ "\n"))

def baseOf (config : Path) : Path := (Path.parent? config).getD "."

/-- The languages asked for, or that of the user. -/
def wanted (env : Environment) (ids : List String) : List String :=
  if ids.isEmpty then preferredLanguages env else ids

def resolveCatalog (files : Files) (env : Environment) (path : Path) (ids : List String) :
    Except Failure String := do
  let config ← (Config.loadOrDefault files path).mapError .load
  let preferred := wanted env ids
  let found := match (config.resolve files (baseOf path) preferred).value with
    | none => "none"
    | some resolved =>
        let verified := (config.checksums.lookup resolved.language).isSome
        resolved.path ++ " [" ++ resolved.language ++ "]" ++
          (if verified then " (checksum configured)" else "")
  return "candidates: " ++ ", ".intercalate (config.candidates preferred) ++ "\n" ++
    "catalog: " ++ found ++ "\n"

def run (files : Files) (env : Environment) : Command → Except Failure String
  | inspect catalog json => inspectCatalog files catalog json
  | lookup catalog key counted => lookupMessage files catalog key counted
  | dump catalog => dumpCatalog files catalog
  | plural expr first last => tabulate expr first last
  | languages id => listLanguages id
  | resolve config ids => resolveCatalog files env config ids

def runArguments (files : Files) (env : Environment) (args : List String) :
    Except Failure String := do
  let command ← (read args).mapError .usage
  command.run files env

structure Outcome where
  code : UInt32
  output : String
  errors : String
deriving DecidableEq, Repr

/-- The outcome of the program: wrong usage and failures have exit codes of their own. -/
def outcome : Except Failure String → Outcome
  | .ok output => ⟨0, output, ""⟩
  | .error (.usage error) => ⟨2, "", error.message ++ "\n"⟩
  | .error failure => ⟨1, "", "error: " ++ failure.message ++ "\n"⟩

/-- The paths that a command looks at, the contents of the files seen so far being known. -/
def paths (files : Files) (env : Environment) : Command → List Path
  | inspect catalog _ => [catalog]
  | lookup catalog _ _ => [catalog]
  | dump catalog => [catalog]
  | plural _ _ _ => []
  | languages _ => []
  | resolve path ids =>
      match Config.loadOrDefault files path with
      | .error _ => [path]
      | .ok config =>
          path :: (config.candidates (wanted env ids)).map (config.catalogPath (baseOf path))

end MessageCatalog.Command
