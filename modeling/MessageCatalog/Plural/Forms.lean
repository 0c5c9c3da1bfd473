import MessageCatalog.Bytes

/-! The forms of a message, each ended by a NUL or by the end of the message. -/
namespace MessageCatalog.Plural

/-- What follows the first `k` forms, if anything does. -/
def formsAfter? : Nat → Bytes → Option Bytes
  | 0, s => some s
  | k + 1, s =>
      match s.dropWhile (· != 0) with
      | _ :: b :: rest => formsAfter? k (b :: rest)
      | _ => none

theorem formsAfter?_isSuffix {k : Nat} {s rest : Bytes} (h : formsAfter? k s = some rest) :
    rest <:+ s := by
  induction k generalizing s with
  | zero =>
    obtain rfl := Option.some.inj h
    exact List.suffix_rfl
  | succ k ih =>
    unfold formsAfter? at h
    split at h
    · rename_i nul b more hdrop
      have hmore : b :: more <:+ nul :: b :: more := List.suffix_cons _ _
      rw [← hdrop] at hmore
      exact (ih h).trans (hmore.trans (List.dropWhile_suffix _))
    · cases h

/-- The form with an index; the whole message for an index that no form has. -/
def selectForm (index : Int64) (message : Bytes) : Bytes :=
  if index < 0 then message
  else match formsAfter? index.toNatClampNeg message with
    | some rest => cString rest
    | none => message

@[simp] theorem selectForm_zero (message : Bytes) : selectForm 0 message = cString message := rfl

theorem selectForm_isInfix (index : Int64) (message : Bytes) :
    selectForm index message <:+: message := by
  unfold selectForm
  split
  · exact List.infix_rfl
  · split
    · rename_i rest hrest
      exact (cString_isPrefix rest).isInfix.trans (formsAfter?_isSuffix hrest).isInfix
    · exact List.infix_rfl

end MessageCatalog.Plural
