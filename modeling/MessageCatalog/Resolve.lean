import MessageCatalog.Config
import MessageCatalog.Event
import MessageCatalog.Language

/-! From the languages that are wanted to the catalog that is there. -/
namespace MessageCatalog

abbrev Environment := String → Option String

/-- The variables that name the language of the user; the first that is not blank counts. -/
def localeVariables : List String := ["LANG", "LC_ALL", "LC_MESSAGES"]

/-- The language of the user, unless it is that of no locale. -/
def preferredLanguages (env : Environment) : List String :=
  let given (name : String) : Option String := (env name).filter fun v => !(Text.trim v).isEmpty
  match localeVariables.findSome? given with
  | none => []
  | some value =>
      let id := Language.normalize value
      if id.isEmpty || id == "c" || id == "posix" then [] else [id]

structure Resolved where
  language : String
  path : Path
deriving DecidableEq, Repr

namespace Config

variable (config : Config)

/-- One more language to try, unless it is empty or to be tried already. -/
def addCandidate (found : List String) (id : String) : List String :=
  if id.isEmpty || found.contains id then found else found ++ [id]

/-- The languages to try in order: each wanted one, the same without its specifiers, and last the
fallback. -/
def candidates (preferred : List String) : List String :=
  let wanted := if config.languages.isEmpty then preferred else config.languages
  let found := wanted.foldl (fun found given =>
    let id := Language.normalize given
    addCandidate (addCandidate found id) (Language.base id)) []
  match config.fallback with
  | some given => addCandidate found (Language.normalize given)
  | none => found

def directory (base : Path) : Path := Path.join base config.catalogDir

def catalogPath (base : Path) (language : String) : Path :=
  Path.join (config.directory base) (language ++ "." ++ config.extension)

/-- The first language whose catalog is a file. -/
def firstFile (files : Files) (base : Path) : List String → Logged (Option Resolved)
  | [] => ⟨none, []⟩
  | language :: rest =>
      let path := config.catalogPath base language
      if files.isFile path then ⟨some ⟨language, path⟩, []⟩
      else
        let found := firstFile files base rest
        ⟨found.value, .noFile path :: found.events⟩

def resolve (files : Files) (base : Path) (preferred : List String) : Logged (Option Resolved) :=
  config.firstFile files base (config.candidates preferred)

end Config

end MessageCatalog
