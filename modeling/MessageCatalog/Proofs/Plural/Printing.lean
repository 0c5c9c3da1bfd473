import MessageCatalog.Proofs.Bytes
import MessageCatalog.Proofs.Plural.Bounds

/-!
The text of an expression has a derivation of its own, in which every operator and condition is a
group. So reading the text gives the expression back unless its groups nest too deep.
-/
namespace MessageCatalog.Plural

def digits (value : Int64) : Bytes := ascii (Nat.toDigits 10 value.toInt.natAbs)

theorem numeral_digits (value : Int64) : Numeral (digits value) := by
  constructor
  · unfold digits ascii
    rw [Ne, List.map_eq_nil_iff]
    exact Nat.toDigits_ne_nil
  · intro b hb
    obtain ⟨c, hc, rfl⟩ := List.mem_map.mp hb
    exact isDigit_toUInt8 (Nat.isDigit_of_mem_toDigits (by decide) (by decide) hc)

theorem natural_ascii {s : List Char} (h : ∀ c ∈ s, c.isDigit) :
    natural (ascii s) = Nat.ofDigitChars 10 s 0 := by
  unfold natural ascii
  rw [Nat.ofDigitChars_eq_foldl, List.foldl_map]
  apply List.foldl_ext
  intro v c hc
  rw [toNat_toUInt8 (toNat_lt_of_isDigit (h c hc))]
  rfl

theorem natural_digits (value : Int64) : natural (digits value) = value.toInt.natAbs := by
  unfold digits
  rw [natural_ascii fun c hc => Nat.isDigit_of_mem_toDigits (by decide) (by decide) hc]
  exact Nat.ofDigitChars_ten_toDigits

namespace Expr

/-- The groups that nest in the text of an expression. -/
def need : Expr → ℕ
  | constant _ | count => 0
  | binary _ left right => 1 + max left.need right.need
  | conditional test yes no => 1 + max test.need (max (1 + yes.need) (1 + no.need))

/-- The smallest 64-bit number is read as the one above it. -/
def clamped : Expr → Expr
  | constant value => constant (if value = Int64.minValue then -Int64.maxValue else value)
  | count => count
  | binary op left right => binary op left.clamped right.clamped
  | conditional test yes no => conditional test.clamped yes.clamped no.clamped

theorem Spellable.clamped_eq {e : Expr} (h : e.Spellable) : e.clamped = e := by
  induction e with
  | constant value =>
    have hv := h value List.mem_cons_self
    have hne : value ≠ Int64.minValue := by
      rintro rfl
      exact absurd hv (by decide)
    rw [clamped, if_neg hne]
  | count => rfl
  | binary op left right ihl ihr =>
    have hl : left.Spellable := fun v hv => h v (List.mem_append_left _ hv)
    have hr : right.Spellable := fun v hv => h v (List.mem_append_right _ hv)
    rw [clamped, ihl hl, ihr hr]
  | conditional test yes no iht ihy ihn =>
    have ht : test.Spellable := fun v hv => h v (List.mem_append_left _ hv)
    have hy : yes.Spellable := fun v hv =>
      h v (List.mem_append_right _ (List.mem_append_left _ hv))
    have hn : no.Spellable := fun v hv =>
      h v (List.mem_append_right _ (List.mem_append_right _ hv))
    rw [clamped, iht ht, ihy hy, ihn hn]

end Expr

theorem mem_joining (op : Operator) : op ∈ joining (op.level + 1) := by
  cases op <;> decide

namespace Derivation

def ofConstant (value : Int64) : Derivation (.operand 0) :=
  if value.toInt < 0 then negative (digits value) (numeral_digits value)
  else number (digits value) (numeral_digits value)

theorem tree_ofConstant (value : Int64) :
    (ofConstant value).tree = (Expr.constant value).clamped := by
  have hlo : -(maxConstant : Int) - 1 ≤ value.toInt := value.minValue_le_toInt
  have hhi : value.toInt ≤ maxConstant := value.toInt_le
  have hmin : value = Int64.minValue ↔ value.toInt = -(maxConstant : Int) - 1 := by
    rw [← Int64.toInt_inj]
    rfl
  unfold ofConstant Expr.clamped
  by_cases hneg : value.toInt < 0
  · rw [if_pos hneg, tree, natural_digits, ← literal_eq_saturated]
    congr 1
    apply Int64.toInt.inj
    rw [toInt_neg_literal]
    by_cases h : value = Int64.minValue
    · rw [if_pos h, hmin.mp h]
      rfl
    · rw [if_neg h]
      have hne := mt hmin.mpr h
      omega
  · have h : value ≠ Int64.minValue := by
      intro he
      have hvalue := hmin.mp he
      omega
    rw [if_neg hneg, if_neg h, tree, natural_digits, ← literal_eq_saturated]
    congr 1
    apply Int64.toInt.inj
    rw [toInt_literal]
    omega

def ofExpr : Expr → Derivation (.operand 0)
  | .constant value => ofConstant value
  | .count => count
  | .binary op left right =>
      group (plain ((join ((ofExpr left).raise (Nat.zero_le _)) op (mem_joining op)
        ((ofExpr right).raise (Nat.zero_le _))).raise
          (show op.level + 1 ≤ 5 from op.level_lt_levels)))
  | .conditional test yes no =>
      group (conditional (ofExpr test).loose (plain (ofExpr yes).loose) (plain (ofExpr no).loose))

theorem tree_ofExpr (e : Expr) : (ofExpr e).tree = e.clamped := by
  induction e with
  | constant value => exact tree_ofConstant value
  | count => rfl
  | binary op left right ihl ihr => simp [ofExpr, tree, Expr.clamped, ihl, ihr]
  | conditional test yes no iht ihy ihn => simp [ofExpr, loose, tree, Expr.clamped, iht, ihy, ihn]

theorem nesting_ofExpr (e : Expr) : (ofExpr e).nesting = e.need := by
  induction e with
  | constant value =>
    unfold ofExpr ofConstant
    split <;> rfl
  | count => rfl
  | binary op left right ihl ihr =>
    simp [ofExpr, nesting, Expr.need, ihl, ihr, Nat.add_comm]
  | conditional test yes no iht ihy ihn =>
    simp [ofExpr, loose, nesting, Expr.need, iht, ihy, ihn, Nat.add_comm]

theorem applications_ofExpr (e : Expr) : (ofExpr e).applications = e.nodes := by
  induction e with
  | constant value =>
    unfold ofExpr ofConstant
    split <;> rfl
  | count => rfl
  | binary op left right ihl ihr => simp [ofExpr, applications, Expr.nodes, ihl, ihr]
  | conditional test yes no iht ihy ihn =>
    simp [ofExpr, loose, applications, Expr.nodes, iht, ihy, ihn]

end Derivation

theorem layout_join {first second : List Bytes} {a b : Bytes} (ha : Layout first a)
    (hb : Layout second b) : Layout (first ++ second) (a ++ b) := by
  induction first generalizing a with
  | nil =>
    -- the blanks after the last token come before the next one
    cases second with
    | nil =>
      intro x hx
      rcases List.mem_append.mp hx with hx | hx
      · exact ha x hx
      · exact hb x hx
    | cons w second =>
      obtain ⟨blanks, rest, hblanks, rfl, hrest⟩ := hb
      refine ⟨a ++ blanks, rest, ?_, by simp, hrest⟩
      intro x hx
      rcases List.mem_append.mp hx with hx | hx
      · exact ha x hx
      · exact hblanks x hx
  | cons w first ih =>
    obtain ⟨blanks, rest, hblanks, rfl, hrest⟩ := ha
    exact ⟨blanks, rest ++ b, hblanks, by simp, ih hrest⟩

theorem layout_single (w : Bytes) : Layout [w] w :=
  ⟨[], [], fun _ hb => absurd hb List.not_mem_nil, by simp, fun _ hb => absurd hb List.not_mem_nil⟩

theorem layout_space {lexemes : List Bytes} {a : Bytes} (h : Layout lexemes a) :
    Layout lexemes (' '.toUInt8 :: a) := by
  have hspace : Layout [] [' '.toUInt8] := by
    show Blanks [32]
    decide
  exact layout_join hspace h

theorem layout_ofExpr (e : Expr) : Layout (Derivation.ofExpr e).lexemes (ascii e.chars) := by
  induction e with
  | constant value =>
    unfold Derivation.ofExpr Derivation.ofConstant Expr.chars Text.decimal
    split
    · exact layout_single _
    · exact layout_single _
  | count => exact layout_single _
  | binary op left right ihl ihr =>
    have hright := layout_space (layout_join ihr (layout_single (ascii [')'])))
    have hsymbol := layout_space (layout_join (layout_single (ascii op.symbol)) hright)
    have hall := layout_join (layout_single (ascii ['('])) (layout_join ihl hsymbol)
    simpa [Derivation.ofExpr, Derivation.lexemes, Expr.chars] using hall
  | conditional test yes no iht ihy ihn =>
    have hno := layout_space (layout_join ihn (layout_single (ascii [')'])))
    have hcolon := layout_space (layout_join (layout_single (ascii [':'])) hno)
    have hyes := layout_space (layout_join ihy hcolon)
    have hquestion := layout_space (layout_join (layout_single (ascii ['?'])) hyes)
    have hall := layout_join (layout_single (ascii ['('])) (layout_join iht hquestion)
    simpa [Derivation.ofExpr, Derivation.loose, Derivation.lexemes, Expr.chars] using hall

theorem toNat_lt_of_mem_decimal (value : Int) : ∀ c ∈ Text.decimal value, c.toNat < 128 := by
  have hdigits : ∀ c ∈ Nat.toDigits 10 value.natAbs, c.toNat < 128 := fun c hc =>
    toNat_lt_of_isDigit (Nat.isDigit_of_mem_toDigits (by decide) (by decide) hc)
  unfold Text.decimal
  split
  · exact List.forall_mem_cons.mpr ⟨by decide, hdigits⟩
  · exact hdigits

theorem toNat_lt_of_mem_symbol (op : Operator) : ∀ c ∈ op.symbol, c.toNat < 128 := by
  have hall : op.symbol.all (·.toNat < 128) := by cases op <;> rfl
  simpa using hall

theorem toNat_lt_of_mem_chars (e : Expr) : ∀ c ∈ e.chars, c.toNat < 128 := by
  induction e with
  | constant value => exact toNat_lt_of_mem_decimal value.toInt
  | count => exact List.forall_mem_singleton.mpr (by decide)
  | binary op left right ihl ihr =>
    have hop := toNat_lt_of_mem_symbol op
    simpa [Expr.chars, or_imp, forall_and] using ⟨ihl, hop, ihr⟩
  | conditional test yes no iht ihy ihn =>
    simpa [Expr.chars, or_imp, forall_and] using ⟨iht, ihy, ihn⟩

namespace Derivation

def ofText (e : Expr) : Derivation .whole := plain (ofExpr e).loose

theorem nesting_ofText (e : Expr) : (ofText e).nesting = e.need + 1 := by
  simp [ofText, loose, nesting, nesting_ofExpr]

theorem applications_ofText (e : Expr) : (ofText e).applications = e.nodes := by
  simp [ofText, loose, applications, applications_ofExpr]

theorem tree_ofText (e : Expr) : (ofText e).tree = e.clamped := by
  simp [ofText, loose, tree, tree_ofExpr]

theorem layout_ofText (e : Expr) : Layout (ofText e).lexemes (ascii e.chars) := by
  simpa [ofText, loose, lexemes] using layout_ofExpr e

end Derivation

theorem ofText?_text_eq (e : Expr) :
    Expr.ofText? e.text = if e.nodes ≤ 1024 ∧ e.need ≤ 63 then some e.clamped else none := by
  have hbytes : utf8 e.text = ascii e.chars ++ [] := by
    rw [List.append_nil]
    exact utf8_ofList (toNat_lt_of_mem_chars e)
  have hiff : (e.need + 1 ≤ 64 ∧ e.nodes ≤ 1024) ↔ (e.nodes ≤ 1024 ∧ e.need ≤ 63) := by omega
  unfold Expr.ofText?
  rw [hbytes, ofBytes?_layout _ (Derivation.layout_ofText e) (Or.inl rfl),
    Derivation.nesting_ofText, Derivation.applications_ofText, Derivation.tree_ofText]
  simp only [hiff]

/-- The text of an expression is read as the expression, with its constants clamped, if it has at
most 1024 operators and conditions and at most 63 nested groups, and is refused otherwise; the text
of an expression that was read itself can only be refused for its groups. -/
theorem ofText?_text :
    (∀ e : Expr, Expr.ofText? e.text =
      if e.nodes ≤ 1024 ∧ e.need ≤ 63 then some e.clamped else none) ∧
    ∀ s e, Expr.ofBytes? s = some e →
      Expr.ofText? e.text = some e ∨ (63 < e.need ∧ Expr.ofText? e.text = none) := by
  refine ⟨ofText?_text_eq, ?_⟩
  intro s e hs
  obtain ⟨hnodes, hspellable⟩ := Expr.ofBytes?_eq_some hs
  have hfits : e.nodes ≤ 1024 := hnodes
  rw [ofText?_text_eq, hspellable.clamped_eq]
  by_cases hneed : e.need ≤ 63
  · left
    rw [if_pos ⟨hfits, hneed⟩]
  · right
    rw [if_neg fun h => hneed h.2]
    exact ⟨Nat.lt_of_not_le hneed, rfl⟩

def sum : ℕ → Expr
  | 0 => .count
  | k + 1 => .binary .add (sum k) .count

theorem need_sum (k : ℕ) : (sum k).need = k := by
  induction k with
  | zero => rfl
  | succ k ih =>
    unfold sum Expr.need
    rw [ih, Expr.need]
    omega

/-- A sum of 65 counts nests nowhere as it is written, and 64 times in its text. -/
theorem ofText?_text_sum :
    Expr.ofBytes? (110 :: (List.replicate 64 [43, 110]).flatten) = some (sum 64) ∧
      63 < (sum 64).need ∧ Expr.ofText? (sum 64).text = none := by
  have hread : Expr.ofBytes? (110 :: (List.replicate 64 [43, 110]).flatten) = some (sum 64) := by
    decide +kernel
  have hneed := need_sum 64
  have hnone : Expr.ofText? (sum 64).text = none := by
    rw [ofText?_text.1, if_neg]
    omega
  rcases ofText?_text.2 _ _ hread with h | h
  · rw [hnone] at h
    cases h
  · exact ⟨hread, h⟩

end MessageCatalog.Plural
