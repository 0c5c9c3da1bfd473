import MessageCatalog.Catalog.Load
import MessageCatalog.Catalog.Metadata
import MessageCatalog.Message.Format
import MessageCatalog.Resolve

/-!
A translator answers from one active catalog, or from the keys themselves while it has none. A
catalog becomes active as a whole, and a catalog that fails to load leaves the active one in place.
-/
namespace MessageCatalog

structure Translator where
  active : Option Catalog

namespace Translator

def new : Translator := ⟨none⟩

abbrev Change (α : Type) := Logged (Translator × Except LoadError α)

def ruleEvent (c : Catalog) : Event :=
  if c.rule.declared then .declaredRule c.rule
  else match c.metadata.pluralForms? with
    | some pluralForms => .unusableRule pluralForms
    | none => .noRule

variable (t : Translator)

def install (c : Catalog) : Change Unit := ⟨(⟨some c⟩, .ok ()), [ruleEvent c]⟩

def adopt (p : Path) (loaded : Logged (Except LoadError Catalog)) : Change Unit :=
  match loaded.value with
  | .error error => ⟨(t, .error error), loaded.events ++ [.rejectedFile p error]⟩
  | .ok c => ⟨(⟨some c⟩, .ok ()), loaded.events ++ [.loaded p c.size, ruleEvent c]⟩

def loadFile (files : Files) (p : Path) : Change Unit := t.adopt p (Catalog.load files p)

def loadFileVerified (files : Files) (p : Path) (expected : String) : Change Unit :=
  t.adopt p (Catalog.loadVerified files p expected)

def loadImage (image : ByteArray) : Change Unit :=
  match Catalog.decode image with
  | .error error => ⟨(t, .error (.catalog error)), [.rejectedImage error]⟩
  | .ok c => install c

/-- Loads the catalog of the first language that has one, and answers that language. -/
def loadPreferred (files : Files) (config : Config) (base : Path) (preferred : List String) :
    Change String :=
  let found := config.resolve files base preferred
  match found.value with
  | none => ⟨(t, .error (.noCatalog (config.candidates preferred))), found.events⟩
  | some resolved =>
      let change := match config.checksums.lookup resolved.language with
        | some expected => t.loadFileVerified files resolved.path expected
        | none => t.loadFile files resolved.path
      ⟨(change.value.1, change.value.2.map fun _ => resolved.language),
        found.events ++ change.events⟩

def unload : Logged Translator := ⟨new, if t.active.isSome then [.unloaded] else []⟩

def isLoaded : Bool := t.active.isSome

def strategy? : Option Catalog.Strategy := t.active.map (·.strategy)

def formCount? : Option UInt32 := t.active.map (·.rule.forms)

/-- Who made the active catalog. -/
def description? : Option String := t.active.bind (·.metadata.languageTeam?)

/-- The text of the first form of a message. -/
def textOf (message : Bytes) : String := Text.decode (cString message)

/-- The message of a key, or the key. -/
def translate (key : String) : Logged String :=
  match t.active with
  | none => ⟨key, []⟩
  | some c =>
      match c.lookup (utf8 key) with
      | some message => ⟨textOf message, []⟩
      | none => ⟨key, [.noMessage key]⟩

/-- The form of the message of a key for a count, or one of the two texts of the caller. -/
def translatePlural (singular plural : String) (n : Int64) : Logged String :=
  let fallback := if n = 1 then singular else plural
  match t.active with
  | none => ⟨fallback, []⟩
  | some c =>
      match c.lookupPlural (utf8 singular) n with
      | some form => ⟨textOf form, []⟩
      | none => ⟨fallback, [.noPluralMessage singular n]⟩

def format (key : String) (args : List Message.Argument) : Logged String :=
  let text := t.translate key
  ⟨Message.format text.value args, text.events⟩

def formatPlural (singular plural : String) (n : Int64) (args : List Message.Argument) :
    Logged String :=
  let text := t.translatePlural singular plural n
  ⟨Message.format text.value args, text.events⟩

end Translator

end MessageCatalog
