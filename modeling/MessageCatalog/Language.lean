import MessageCatalog.Text.Basic

/-! Language identifiers, and the languages with a name of their own. -/
namespace MessageCatalog

structure Language where
  code : String
  name : String
deriving DecidableEq, Repr

namespace Language

/-- The languages with names, in the order of their codes. -/
def known : List Language := [
  ⟨"af", "Afrikaans"⟩, ⟨"be", "БЕЛАРУСКАЯ"⟩, ⟨"bg", "БЪЛГАРСКИ"⟩, ⟨"cs", "Čeština"⟩,
  ⟨"da", "Dansk"⟩, ⟨"de", "Deutsch"⟩, ⟨"en", "English"⟩, ⟨"es", "Español"⟩, ⟨"et", "Eesti"⟩,
  ⟨"fi", "Suomi"⟩, ⟨"fr", "Français"⟩, ⟨"hr", "Hrvatski"⟩, ⟨"hu", "Magyar"⟩, ⟨"it", "Italiano"⟩,
  ⟨"lt", "Lietuvių"⟩, ⟨"lv", "Latviešu"⟩, ⟨"mo", "ЛИМБА МОЛДОВЕНЯСКЭ"⟩, ⟨"nl", "Nederlands"⟩,
  ⟨"no", "Norsk"⟩, ⟨"pl", "Polski"⟩, ⟨"pt", "Português"⟩, ⟨"ro", "Română"⟩, ⟨"ru", "РУССКИЙ"⟩,
  ⟨"sk", "Slovenčina"⟩, ⟨"sl", "Slovenščina"⟩, ⟨"sr", "Srpski"⟩, ⟨"sv", "Svenska"⟩,
  ⟨"tr", "Türkçe"⟩, ⟨"uk", "УКРАЇНСЬКА"⟩]

/-- The characters after which an identifier names a region, a script, a charset or a variant. -/
def isSpecifier (c : Char) : Bool := c == '-' || c == '_' || c == '.' || c == '@'

def base (id : String) : String := String.ofList (id.toList.takeWhile (!isSpecifier ·))

def lower (s : String) : String := String.ofList (s.toList.map Char.toLower)

/-- The language of a code, found by binary search in the byte order of the codes. -/
def ofCode? (code : String) : Option Language :=
  let i := lastNotAbove (fun i => known[i]?.any (utf8 ·.code ≤ utf8 code)) 0 known.length
  known[i]?.filter (·.code = code)

def name? (id : String) : Option String :=
  let code := base (Text.trim id)
  if code.isEmpty then none else (ofCode? (lower code)).map (·.name)

/-- An identifier without charset and variant, in lower case, its parts joined by hyphens. -/
def normalize (id : String) : String :=
  String.ofList <|
    ((Text.trim id).toList.takeWhile fun c => c != '.' && c != '@').map fun c =>
      if c = '_' then '-' else c.toLower

end Language

end MessageCatalog
