import Mathlib.Tactic.Common
import MessageCatalog.Translator

/-! The questions to a translator, and what its active catalog alone says to each of them. -/
namespace MessageCatalog

inductive Query
  | isLoaded
  | active
  | strategy
  | formCount
  | description
  | translate (key : String)
  | translatePlural (singular plural : String) (n : Int64)
  | format (key : String) (args : List Message.Argument)
  | formatPlural (singular plural : String) (n : Int64) (args : List Message.Argument)

inductive Answer
  | flag (b : Bool)
  | catalog (c : Option Catalog)
  | strategy (s : Option Catalog.Strategy)
  | formCount (forms : Option UInt32)
  | description (team : Option String)
  | text (s : String)

def Translator.answer (t : Translator) : Query → Answer
  | .isLoaded => .flag t.isLoaded
  | .active => .catalog t.active
  | .strategy => .strategy t.strategy?
  | .formCount => .formCount t.formCount?
  | .description => .description t.description?
  | .translate key => .text (t.translate key).value
  | .translatePlural singular plural n => .text (t.translatePlural singular plural n).value
  | .format key args => .text (t.format key args).value
  | .formatPlural singular plural n args => .text (t.formatPlural singular plural n args).value

namespace Query

/-- The message of a key in a catalog, or the key. -/
def message (c : Catalog) (key : String) : String :=
  ((c.lookup (utf8 key)).map Translator.textOf).getD key

/-- The form of the message of a key in a catalog, or one of the two texts of the caller. -/
def form (c : Catalog) (singular plural : String) (n : Int64) : String :=
  ((c.lookupPlural (utf8 singular) n).map Translator.textOf).getD
    (if n = 1 then singular else plural)

def answer (c : Catalog) : Query → Answer
  | isLoaded => .flag true
  | active => .catalog (some c)
  | strategy => .strategy (some c.strategy)
  | formCount => .formCount (some c.rule.forms)
  | description => .description c.metadata.languageTeam?
  | translate key => .text (message c key)
  | translatePlural singular plural n => .text (form c singular plural n)
  | format key args => .text (Message.format (message c key) args)
  | formatPlural singular plural n args => .text (Message.format (form c singular plural n) args)

theorem answer_eq (c : Catalog) (q : Query) : (⟨some c⟩ : Translator).answer q = q.answer c := by
  have hmessage : ∀ key, ((⟨some c⟩ : Translator).translate key).value = message c key := by
    intro key
    unfold Translator.translate message
    dsimp only
    cases c.lookup (utf8 key) <;> rfl
  have hform : ∀ singular plural n,
      ((⟨some c⟩ : Translator).translatePlural singular plural n).value =
        form c singular plural n := by
    intro singular plural n
    unfold Translator.translatePlural form
    dsimp only
    cases c.lookupPlural (utf8 singular) n <;> rfl
  cases q with
  | isLoaded => rfl
  | active => rfl
  | strategy => rfl
  | formCount => rfl
  | description => rfl
  | translate key => exact congrArg _ (hmessage key)
  | translatePlural singular plural n => exact congrArg _ (hform singular plural n)
  | format key args =>
    rw [answer, ← hmessage]
    rfl
  | formatPlural singular plural n args =>
    rw [answer, ← hform]
    rfl

end Query

end MessageCatalog
