import Mathlib.Data.List.Basic
import Mathlib.Data.List.Count
import MessageCatalog.Message.Format
import MessageCatalog.Proofs.Message.Pieces

/-!
The text that a template is filled to. Every piece stands for a text of its own, a directive for
the argument with its number among the directives; arguments that no directive takes are not read.
-/
namespace MessageCatalog.Message

/-- The number that a conversion reads in a number of 64 bits: a signed or an unsigned one with the
same bits, or the number itself. -/
def Conversion.reading (conversion : Conversion) (value : ℤ) : ℤ :=
  match conversion with
  | .text => value
  | .signed => value.bmod UInt64.size
  | .unsigned | .hexLower | .hexUpper => value % UInt64.size

/-- The digits of a number in the base of a conversion, after a minus sign for a negative one. -/
def Conversion.numeral (conversion : Conversion) (value : ℤ) : List Char :=
  match conversion with
  | .text | .signed | .unsigned => value.repr.toList
  | .hexLower => Nat.toDigits 16 value.toNat
  | .hexUpper => (Nat.toDigits 16 value.toNat).map Char.toUpper

def Argument.shown (conversion : Conversion) : Argument → List Char
  | .text value => value.toList
  | .signed value => conversion.numeral (conversion.reading value.toInt)
  | .unsigned value => conversion.numeral (conversion.reading value.toNat)

/-- A text set into a field: it is as long as the field, or as the text where that is longer. -/
structure Field (layout : Layout) (conversion : Conversion) (s t : List Char) : Prop where
  length_eq : t.length = max layout.width s.length
  left : layout.left = true → ∃ k, t = s ++ List.replicate k ' '
  /-- Zeros stand between the sign and the digits. -/
  zeros : layout.left = false → layout.zeros = true → conversion ≠ .text →
    ∃ sign digits k, s = sign ++ digits ∧ (sign = ['-'] ∨ sign = [] ∧ digits.head? ≠ some '-') ∧
      t = sign ++ List.replicate k '0' ++ digits
  right : layout.left = false → layout.zeros = false ∨ conversion = .text →
    ∃ k, t = List.replicate k ' ' ++ s

/-- The text that a piece stands for, with an argument for a directive if there is one left. -/
def Piece.Stands (arg : Option Argument) : Piece → List Char → Prop
  | .literal c, t => t = [c]
  | .percent, t => t = ['%']
  | .verbatim text, t => t = text
  | .directive layout conversion, t =>
      Field layout conversion ((arg.map (·.shown conversion)).getD []) t

def directives (pieces : List Piece) : ℕ := pieces.countP (· matches .directive _ _)

theorem decimal_eq_repr (value : ℤ) : Text.decimal value = value.repr.toList := by
  cases value with
  | ofNat n =>
    have hnonneg : ¬(Int.ofNat n < 0) := Int.not_lt.mpr (Int.natCast_nonneg n)
    rw [Text.decimal, if_neg hnonneg]
    exact Nat.toList_repr.symm
  | negSucc n =>
    rw [Text.decimal, if_pos (Int.negSucc_lt_zero n), Int.repr, String.toList_append,
      Nat.toList_repr]
    rfl

theorem toNat_emod_size (value : UInt64) : (value.toNat : ℤ) % UInt64.size = value.toNat :=
  Int.emod_eq_of_lt (Int.natCast_nonneg _) (Int.ofNat_lt.mpr value.toNat_lt)

theorem toNat_toUInt64 (value : Int64) :
    (value.toUInt64.toNat : ℤ) = value.toInt % UInt64.size := by
  have h : value.toInt = (value.toUInt64.toNat : ℤ).bmod UInt64.size :=
    BitVec.toInt_eq_toNat_bmod value.toBitVec
  rw [h, Int.bmod_emod, toNat_emod_size]

theorem toInt_toInt64 (value : UInt64) :
    value.toInt64.toInt = (value.toNat : ℤ).bmod UInt64.size :=
  BitVec.toInt_eq_toNat_bmod value.toBitVec

theorem render_eq_shown (arg : Argument) (conversion : Conversion) :
    arg.render conversion = arg.shown conversion := by
  have hsigned (value : Int64) : value.toInt.bmod UInt64.size = value.toInt := value.toInt_bmod
  have hnat (n : ℕ) : (n : ℤ).repr.toList = Nat.toDigits 10 n := Nat.toList_repr
  cases arg with
  | text value => rfl
  | signed value =>
    cases conversion <;>
      simp only [Argument.render, Argument.shown, Conversion.numeral, Conversion.reading,
        decimal_eq_repr, hsigned, ← toNat_toUInt64, hnat, Int.toNat_natCast]
  | unsigned value =>
    cases conversion <;>
      simp only [Argument.render, Argument.shown, Conversion.numeral, Conversion.reading,
        decimal_eq_repr, toInt_toInt64, toNat_emod_size, hnat, Int.toNat_natCast]

section Pad

variable {layout : Layout} {conversion : Conversion} (s : List Char)

theorem pad_left (h : layout.left = true) :
    layout.pad conversion s = s ++ List.replicate (layout.width - s.length) ' ' := by
  unfold Layout.pad
  exact if_pos h

theorem pad_right (hl : layout.left = false) (h : layout.zeros = false ∨ conversion = .text) :
    layout.pad conversion s = List.replicate (layout.width - s.length) ' ' ++ s := by
  have hz : (layout.zeros && conversion != .text) = false := by
    rcases h with h | rfl
    · rw [h, Bool.false_and]
    · simp
  simp [Layout.pad, hl, hz]

theorem pad_zeros (hl : layout.left = false) (hz : layout.zeros = true)
    (hc : conversion ≠ .text) :
    ∃ sign digits, s = sign ++ digits ∧ (sign = ['-'] ∨ sign = [] ∧ digits.head? ≠ some '-') ∧
      layout.pad conversion s =
        sign ++ List.replicate (layout.width - s.length) '0' ++ digits := by
  have hnumber : (layout.zeros && conversion != .text) = true := by simp [hz, hc]
  by_cases h : s.head? = some '-'
  · obtain ⟨digits, rfl⟩ := List.head?_eq_some_iff.mp h
    exact ⟨['-'], digits, rfl, Or.inl rfl, by simp [Layout.pad, hl, hnumber]⟩
  · refine ⟨[], s, rfl, Or.inr ⟨rfl, h⟩, ?_⟩
    unfold Layout.pad
    rw [hl, hnumber, if_neg Bool.false_ne_true, if_pos rfl]
    split
    · exact absurd rfl h
    · rfl

theorem length_pad (layout : Layout) (conversion : Conversion) (s : List Char) :
    (layout.pad conversion s).length = max layout.width s.length := by
  by_cases hl : layout.left = true
  · rw [pad_left s hl, List.length_append, List.length_replicate]
    omega
  · rw [Bool.not_eq_true] at hl
    by_cases h : layout.zeros = false ∨ conversion = .text
    · rw [pad_right s hl h, List.length_append, List.length_replicate]
      omega
    · rw [not_or, Bool.not_eq_false] at h
      obtain ⟨sign, digits, hs, -, hpad⟩ := pad_zeros s hl h.1 h.2
      have hlen := congrArg List.length hs
      rw [List.length_append] at hlen
      rw [hpad, List.length_append, List.length_append, List.length_replicate]
      omega

end Pad

theorem field_pad (layout : Layout) (conversion : Conversion) (s : List Char) :
    Field layout conversion s (layout.pad conversion s) := by
  refine ⟨length_pad layout conversion s, ?_, ?_, ?_⟩
  · intro hl
    exact ⟨_, pad_left s hl⟩
  · intro hl hz hc
    obtain ⟨sign, digits, hs, hsign, hpad⟩ := pad_zeros s hl hz hc
    exact ⟨sign, digits, _, hs, hsign, hpad⟩
  · intro hl h
    exact ⟨_, pad_right s hl h⟩

@[simp] theorem directives_nil : directives [] = 0 := rfl

theorem directives_cons (p : Piece) (pieces : List Piece) :
    directives (p :: pieces) = directives pieces + directives [p] := by
  rw [directives, List.countP_cons]
  simp [directives, List.countP_cons]

theorem exists_fill_cons (p : Piece) (pieces : List Piece) (args : List Argument) :
    ∃ t, p.Stands args[0]? t ∧
      fill (p :: pieces) args = t ++ fill pieces (args.drop (directives [p])) := by
  cases p with
  | literal c => exact ⟨[c], rfl, rfl⟩
  | percent => exact ⟨['%'], rfl, rfl⟩
  | verbatim text => exact ⟨text, rfl, rfl⟩
  | directive layout conversion =>
    refine ⟨_, field_pad layout conversion _, ?_⟩
    cases args with
    | nil => rfl
    | cons arg args =>
      rw [List.getElem?_cons_zero, Option.map_some, Option.getD_some, ← render_eq_shown]
      rfl

/-- Each piece stands for a text with the argument that has the number of the directives before
it, and what is filled in is these texts one after the other. -/
theorem exists_texts (pieces : List Piece) (args : List Argument) :
    ∃ texts : List (List Char), texts.length = pieces.length ∧
      fill pieces args = texts.flatten ∧
      ∀ (i : ℕ) (p : Piece), pieces[i]? = some p →
        ∃ t, texts[i]? = some t ∧ p.Stands args[directives (pieces.take i)]? t := by
  induction pieces generalizing args with
  | nil => exact ⟨[], rfl, rfl, fun i p h => by simp at h⟩
  | cons p pieces ih =>
    obtain ⟨t, ht, hfill⟩ := exists_fill_cons p pieces args
    obtain ⟨texts, hlen, hrest, hstands⟩ := ih (args.drop (directives [p]))
    refine ⟨t :: texts, by simp [hlen], by rw [hfill, hrest, List.flatten_cons], ?_⟩
    intro i q hq
    cases i with
    | zero =>
      obtain rfl := Option.some.inj hq
      exact ⟨t, rfl, ht⟩
    | succ i =>
      obtain ⟨u, hu, hq⟩ := hstands i q hq
      rw [List.getElem?_drop, Nat.add_comm] at hq
      refine ⟨u, hu, ?_⟩
      rwa [List.take_succ_cons, directives_cons]

/-- Arguments beyond the number of the directives are not read. -/
theorem fill_append (pieces : List Piece) (args more : List Argument)
    (h : directives pieces ≤ args.length) : fill pieces (args ++ more) = fill pieces args := by
  induction pieces generalizing args with
  | nil => rfl
  | cons p pieces ih =>
    rw [directives_cons] at h
    have hrest := Nat.le_of_add_right_le h
    cases p with
    | literal c => exact congrArg (c :: ·) (ih args hrest)
    | percent => exact congrArg ('%' :: ·) (ih args hrest)
    | verbatim text => exact congrArg (text ++ ·) (ih args hrest)
    | directive layout conversion =>
      cases args with
      | nil => exact absurd h (Nat.not_succ_le_zero _)
      | cons arg args => exact congrArg (_ ++ ·) (ih args (Nat.le_of_succ_le_succ h))

/-- There is one way to cut a template into pieces, the longest each time. The text that the
template is filled to is that of its pieces in order, the directives standing for the arguments in
order, and for the empty text when there are no more. Further arguments change nothing. -/
theorem format_cut (template : String) (args : List Argument) :
    ∃ pieces, (Cut pieces template.toList ∧
        ∀ others, Cut others template.toList → others = pieces) ∧
      (∃ texts : List (List Char), texts.length = pieces.length ∧
        (format template args).toList = texts.flatten ∧
        ∀ (i : ℕ) (p : Piece), pieces[i]? = some p →
          ∃ t, texts[i]? = some t ∧ p.Stands args[directives (pieces.take i)]? t) ∧
      ∀ more, directives pieces ≤ args.length →
        format template (args ++ more) = format template args := by
  refine ⟨Piece.split template.toList, ⟨cut_split _, fun _ h => h.eq_split⟩, ?_, ?_⟩
  · rw [format, String.toList_ofList]
    exact exists_texts _ args
  · intro more h
    rw [format, format, fill_append _ _ _ h]

/-- Two directives among percent signs that start none; the third argument is not read. -/
theorem format_cut_surplus :
    directives (Piece.split "100%% %5% %-3d|%04i %.2f %h".toList) ≤ 2 ∧
      format "100%% %5% %-3d|%04i %.2f %h" [.signed 7, .signed (-7), .text "x"] =
        "100% %5% 7  |-007 %.2f %h" := by
  have hcount : directives (Piece.split "100%% %5% %-3d|%04i %.2f %h".toList) ≤ 2 := by
    decide +kernel
  obtain ⟨pieces, ⟨-, hunique⟩, -, hmore⟩ :=
    format_cut "100%% %5% %-3d|%04i %.2f %h" [.signed 7, .signed (-7)]
  obtain rfl := hunique _ (cut_split _)
  refine ⟨hcount, (hmore [.text "x"] hcount).trans ?_⟩
  decide +kernel

end MessageCatalog.Message
