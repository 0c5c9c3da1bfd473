import MessageCatalog.Message.Piece
import MessageCatalog.Proofs.Plural.Printing
import MessageCatalog.Proofs.Text.Basic

/-!
The pieces of a template. A text that starts with a percent sign is taken for a piece in several
ways; a template is cut from its start, into the longest piece each time. There is one way to do
it, and this is how a template is split.
-/
namespace MessageCatalog.Message

def conversions : List (Char × Conversion) :=
  [('s', .text), ('d', .signed), ('i', .signed), ('u', .unsigned), ('x', .hexLower),
    ('X', .hexUpper)]

/-- What stands between a percent sign and a conversion. A zero before the width is a flag. -/
@[ext]
structure Setting where
  flags : List Char
  digits : List Char
  modifiers : List Char
  flags_subset : flags ⊆ ['-', '0']
  isDigit_of_mem : ∀ c ∈ digits, c.isDigit
  modifiers_subset : modifiers ⊆ ['h', 'l', 'z']
  head?_digits_ne : digits.head? ≠ some '0'

namespace Setting

def chars (m : Setting) : List Char := m.flags ++ (m.digits ++ m.modifiers)

def layout (m : Setting) : Layout :=
  ⟨m.flags.contains '-', m.flags.contains '0', min (Nat.ofDigitChars 10 m.digits 0) maxWidth⟩

end Setting

/-- The ways to take the start of a template for a piece: the piece, its characters, and what
follows them. -/
inductive Spells : Piece → List Char → List Char → Prop
  | literal {c : Char} (h : c ≠ '%') (rest : List Char) : Spells (.literal c) [c] rest
  | percent (rest : List Char) : Spells .percent ['%', '%'] rest
  | directive (m : Setting) {c : Char} {conversion : Conversion}
      (h : (c, conversion) ∈ conversions) (rest : List Char) :
      Spells (.directive m.layout conversion) ('%' :: (m.chars ++ [c])) rest
  | unknown (m : Setting) {c : Char} (h : ∀ conversion, (c, conversion) ∉ conversions)
      (hc : c = '%' → m.chars ≠ []) (rest : List Char) :
      Spells (.verbatim ('%' :: (m.chars ++ [c]))) ('%' :: (m.chars ++ [c])) rest
  | unfinished (m : Setting) : Spells (.verbatim ('%' :: m.chars)) ('%' :: m.chars) []

/-- A longest piece at the start of a template. -/
structure Longest (p : Piece) (text rest : List Char) : Prop where
  spells : Spells p text rest
  length_le : ∀ q t r, Spells q t r → t ++ r = text ++ rest → t.length ≤ text.length

/-- A template cut into pieces, the longest each time. -/
inductive Cut : List Piece → List Char → Prop
  | nil : Cut [] []
  | cons {p : Piece} {text rest : List Char} {pieces : List Piece} (h : Longest p text rest)
      (hrest : Cut pieces rest) : Cut (p :: pieces) (text ++ rest)

theorem isFlag_iff {c : Char} : isFlag c = true ↔ c ∈ ['-', '0'] := by
  simp [isFlag]

theorem isModifier_iff {c : Char} : isModifier c = true ↔ c ∈ ['h', 'l', 'z'] := by
  simp [isModifier, or_assoc]

theorem ofChar?_eq_some_iff {c : Char} {conversion : Conversion} :
    Conversion.ofChar? c = some conversion ↔ (c, conversion) ∈ conversions := by
  unfold Conversion.ofChar? conversions
  split <;> simp_all [eq_comm]

theorem ofChar?_eq_none_iff {c : Char} :
    Conversion.ofChar? c = none ↔ ∀ conversion, (c, conversion) ∉ conversions := by
  simp only [Option.eq_none_iff_forall_ne_some, Ne, ofChar?_eq_some_iff]

open Text (takeWhile_of_head? dropWhile_of_head? takeWhile_run dropWhile_run)

namespace Setting

theorem isFlag_of_mem (m : Setting) : ∀ c ∈ m.flags, isFlag c :=
  fun _ hc => isFlag_iff.mpr (m.flags_subset hc)

theorem isModifier_of_mem (m : Setting) : ∀ c ∈ m.modifiers, isModifier c :=
  fun _ hc => isModifier_iff.mpr (m.modifiers_subset hc)

def longest (s : List Char) : Setting where
  flags := s.takeWhile isFlag
  digits := (s.dropWhile isFlag).takeWhile Char.isDigit
  modifiers := ((s.dropWhile isFlag).dropWhile Char.isDigit).takeWhile isModifier
  flags_subset := fun _ hc => isFlag_iff.mp (List.mem_takeWhile_imp hc)
  isDigit_of_mem := fun _ hc => List.mem_takeWhile_imp hc
  modifiers_subset := fun _ hc => isModifier_iff.mp (List.mem_takeWhile_imp hc)
  head?_digits_ne := by
    rw [List.head?_takeWhile]
    have h := List.head?_dropWhile_not isFlag s
    intro hzero
    rw [(Option.filter_eq_some_iff.mp hzero).1] at h
    cases h

def after (s : List Char) : List Char :=
  ((s.dropWhile isFlag).dropWhile Char.isDigit).dropWhile isModifier

theorem longest_append_after (s : List Char) : (longest s).chars ++ after s = s := by
  simp [longest, after, chars]

/-! A character is of one kind only, but for the zero. -/

theorem isFlag_digit {c : Char} (h : c.isDigit) (hzero : c ≠ '0') : isFlag c = false := by
  refine Bool.eq_false_iff.mpr fun hflag => ?_
  simp only [isFlag_iff, List.mem_cons, List.not_mem_nil, or_false] at hflag
  rcases hflag with rfl | rfl
  · cases h
  · exact hzero rfl

theorem kind_modifier {c : Char} (h : c ∈ ['h', 'l', 'z']) :
    isFlag c = false ∧ c.isDigit = false := by
  simp only [List.mem_cons, List.not_mem_nil, or_false] at h
  rcases h with rfl | rfl | rfl <;> decide

/-- Characters of none of the three kinds. -/
def Stops (c : Char) : Prop := isFlag c = false ∧ c.isDigit = false ∧ isModifier c = false

theorem percent_ne_conversion {c : Char} {conversion : Conversion}
    (h : (c, conversion) ∈ conversions) : c ≠ '%' := by
  have hall : ∀ q ∈ conversions, q.1 ≠ '%' := by decide
  exact hall _ h

theorem stops_conversion {c : Char} {conversion : Conversion} (h : (c, conversion) ∈ conversions) :
    Stops c := by
  have hall : ∀ q ∈ conversions, isFlag q.1 = false ∧ q.1.isDigit = false ∧
      isModifier q.1 = false := by
    decide
  exact hall _ h

variable (m : Setting) {c : Char}

theorem isFlag_head?_digits (s : List Char) (hs : ∀ c ∈ s.head?, isFlag c = false) :
    ∀ c ∈ (m.digits ++ s).head?, isFlag c = false := by
  intro c hc
  rw [List.head?_append, Option.mem_def] at hc
  rcases Option.or_eq_some_iff.mp hc with hc | ⟨-, hc⟩
  · have hdigit := m.isDigit_of_mem c (List.mem_of_mem_head? hc)
    refine isFlag_digit hdigit ?_
    rintro rfl
    exact m.head?_digits_ne hc
  · exact hs c hc

theorem kind_head?_modifiers (s : List Char)
    (hs : ∀ c ∈ s.head?, isFlag c = false ∧ c.isDigit = false) :
    ∀ c ∈ (m.modifiers ++ s).head?, isFlag c = false ∧ c.isDigit = false := by
  intro c hc
  rw [List.head?_append, Option.mem_def] at hc
  rcases Option.or_eq_some_iff.mp hc with hc | ⟨-, hc⟩
  · exact kind_modifier (m.modifiers_subset (List.mem_of_mem_head? hc))
  · exact hs c hc

/-- A setting that nothing goes on with is the longest one. -/
theorem longest_append_of_stops (h : Stops c) (rest : List Char) :
    longest (m.chars ++ c :: rest) = m ∧ after (m.chars ++ c :: rest) = c :: rest := by
  have hkind : ∀ x ∈ (c :: rest).head?, isFlag x = false ∧ x.isDigit = false := by
    rintro x ⟨rfl⟩
    exact ⟨h.1, h.2.1⟩
  have hmodifiers := m.kind_head?_modifiers _ hkind
  have hdigits := m.isFlag_head?_digits _ fun x hx => (hmodifiers x hx).1
  have hafter : ∀ x ∈ (c :: rest).head?, isModifier x = false := by
    rintro x ⟨rfl⟩
    exact h.2.2
  have hdigit : ∀ x ∈ (m.modifiers ++ c :: rest).head?, x.isDigit = false :=
    fun x hx => (hmodifiers x hx).2
  have htext : m.chars ++ c :: rest = m.flags ++ (m.digits ++ (m.modifiers ++ c :: rest)) := by
    simp [chars]
  have hflagsRest := dropWhile_run m.isFlag_of_mem hdigits
  have hdigitsRest := dropWhile_run m.isDigit_of_mem hdigit
  constructor
  · rw [htext]
    ext1
    · exact takeWhile_run m.isFlag_of_mem hdigits
    · simp only [longest]
      rw [hflagsRest, takeWhile_run m.isDigit_of_mem hdigit]
    · simp only [longest]
      rw [hflagsRest, hdigitsRest, takeWhile_run m.isModifier_of_mem hafter]
  · rw [htext, after, hflagsRest, hdigitsRest, dropWhile_run m.isModifier_of_mem hafter]

/-- The digits and the modifiers at the start of a text. -/
def unflagged (s : List Char) : List Char :=
  s.takeWhile Char.isDigit ++ (s.dropWhile Char.isDigit).takeWhile isModifier

theorem chars_longest (s : List Char) :
    (longest s).chars = s.takeWhile isFlag ++ unflagged (s.dropWhile isFlag) :=
  rfl

theorem unflagged_append {digits : List Char} (h : ∀ c ∈ digits, c.isDigit) (s : List Char) :
    unflagged (digits ++ s) = digits ++ unflagged s := by
  unfold unflagged
  rw [List.takeWhile_append_of_pos h, List.dropWhile_append_of_pos h, List.append_assoc]

theorem unflagged_of_head? {s : List Char} (h : ∀ c ∈ s.head?, c.isDigit = false) :
    unflagged s = s.takeWhile isModifier := by
  rw [unflagged, takeWhile_of_head? h, dropWhile_of_head? h, List.nil_append]

/-- No setting at the start of a text goes beyond the longest one. -/
theorem exists_longest_append (rest : List Char) :
    ∃ more, (longest (m.chars ++ rest)).chars = m.chars ++ more ∧
      rest = more ++ after (m.chars ++ rest) := by
  have hflags (s : List Char) :
      (longest (m.flags ++ s)).chars = m.flags ++ (longest s).chars := by
    rw [chars_longest, List.takeWhile_append_of_pos m.isFlag_of_mem,
      List.dropWhile_append_of_pos m.isFlag_of_mem, List.append_assoc]
    rfl
  have hunflagged {s : List Char} (hs : ∀ c ∈ s.head?, isFlag c = false) :
      (longest s).chars = unflagged s := by
    rw [chars_longest, takeWhile_of_head? hs, dropWhile_of_head? hs, List.nil_append]
  -- What is taken of the rest depends on the last part of the setting that is not empty.
  have hmore : ∃ more, (longest (m.digits ++ (m.modifiers ++ rest))).chars =
      m.digits ++ (m.modifiers ++ more) := by
    by_cases hm : m.modifiers = []
    · by_cases hd : m.digits = []
      · exact ⟨(longest rest).chars, by simp [hm, hd]⟩
      · have hstart : ∀ c ∈ (m.digits ++ rest).head?, isFlag c = false := by
          rw [List.head?_append_of_ne_nil _ hd]
          simpa using m.isFlag_head?_digits [] nofun
        refine ⟨unflagged rest, ?_⟩
        rw [hm, List.nil_append, List.nil_append, hunflagged hstart,
          unflagged_append m.isDigit_of_mem]
    · have hkind : ∀ c ∈ (m.modifiers ++ rest).head?, isFlag c = false ∧ c.isDigit = false := by
        rw [List.head?_append_of_ne_nil _ hm]
        simpa using m.kind_head?_modifiers [] nofun
      have hdigit : ∀ c ∈ (m.modifiers ++ rest).head?, c.isDigit = false :=
        fun c hc => (hkind c hc).2
      refine ⟨rest.takeWhile isModifier, ?_⟩
      rw [hunflagged (m.isFlag_head?_digits _ fun c hc => (hkind c hc).1),
        unflagged_append m.isDigit_of_mem, unflagged_of_head? hdigit,
        List.takeWhile_append_of_pos m.isModifier_of_mem]
  obtain ⟨more, hmore⟩ := hmore
  have htext : m.chars ++ rest = m.flags ++ (m.digits ++ (m.modifiers ++ rest)) := by
    simp [chars]
  have hchars : (longest (m.chars ++ rest)).chars = m.chars ++ more := by
    rw [htext, hflags, hmore]
    simp [chars]
  have hsplit := longest_append_after (m.chars ++ rest)
  rw [hchars, List.append_assoc] at hsplit
  exact ⟨more, hchars, (List.append_cancel_left hsplit).symm⟩

theorem percent_notMem_chars : '%' ∉ m.chars := by
  intro h
  simp only [chars, List.mem_append] at h
  rcases h with h | h | h
  · exact absurd (m.isFlag_of_mem _ h) (by decide)
  · exact absurd (m.isDigit_of_mem _ h) (by decide)
  · exact absurd (m.isModifier_of_mem _ h) (by decide)

/-- A percent sign at the start of a text leaves a setting there without characters. -/
theorem chars_eq_nil {rest tail : List Char} (h : m.chars ++ rest = '%' :: tail) :
    m.chars = [] := by
  by_contra hne
  obtain ⟨c, more, hc⟩ := List.exists_cons_of_ne_nil hne
  rw [hc] at h
  obtain ⟨rfl, -⟩ := List.cons.inj h
  exact m.percent_notMem_chars (hc ▸ List.mem_cons_self)

end Setting

namespace Piece

open Setting

variable {s : List Char}

theorem layout_eq (m : Setting) : m.layout = ⟨m.flags.contains '-', m.flags.contains '0',
    digitsValue maxWidth (ascii m.digits)⟩ := by
  rw [Plural.digitsValue_eq_min, Plural.natural_ascii m.isDigit_of_mem]
  rfl

section AfterPercent

variable (h : s.head? ≠ some '%') {c : Char} {rest : List Char}
include h

theorem afterPercent_unfinished (ha : after s = []) :
    afterPercent s = (verbatim ('%' :: (longest s).chars), []) := by
  unfold afterPercent
  split
  · simp at h
  · unfold after at ha
    simp [ha, chars, longest]

theorem afterPercent_directive (ha : after s = c :: rest) {conversion : Conversion}
    (hc : Conversion.ofChar? c = some conversion) :
    afterPercent s = (directive (longest s).layout conversion, rest) := by
  rw [layout_eq]
  unfold afterPercent
  split
  · simp at h
  · unfold after at ha
    simp [ha, hc, longest]

theorem afterPercent_unknown (ha : after s = c :: rest) (hc : Conversion.ofChar? c = none) :
    afterPercent s = (verbatim ('%' :: ((longest s).chars ++ [c])), rest) := by
  unfold afterPercent
  split
  · simp at h
  · unfold after at ha
    simp [ha, hc, chars, longest]

theorem rest_afterPercent : (afterPercent s).2 = (after s).tail := by
  cases ha : after s with
  | nil => rw [afterPercent_unfinished h ha, List.tail_nil]
  | cons c rest =>
    cases hc : Conversion.ofChar? c with
    | some conversion => rw [afterPercent_directive h ha hc, List.tail_cons]
    | none => rw [afterPercent_unknown h ha hc, List.tail_cons]

end AfterPercent

end Piece

namespace Setting

theorem head?_chars_ne (m : Setting) {rest : List Char}
    (h : rest.head? = some '%' → m.chars ≠ []) : (m.chars ++ rest).head? ≠ some '%' := by
  intro hhead
  obtain ⟨tail, htail⟩ := List.head?_eq_some_iff.mp hhead
  have hnil := m.chars_eq_nil htail
  rw [hnil, List.nil_append] at hhead
  exact h hhead hnil

end Setting

namespace Spells

open Piece Setting

variable {q : Piece} {t r s : List Char}

/-- A piece at a percent sign leaves more than the piece that is split off, or it is this piece. -/
theorem rest_lt_or_eq (h : Spells q t r) (hs : t ++ r = '%' :: s) :
    (afterPercent s).2.length < r.length ∨ afterPercent s = (q, r) := by
  cases h with
  | literal hc => exact absurd (List.cons.inj hs).1 hc
  | percent =>
    obtain rfl : '%' :: r = s := (List.cons.inj hs).2
    exact Or.inr rfl
  | @directive m c conversion h =>
    have hstops := stops_conversion h
    obtain rfl : m.chars ++ c :: r = s := by simpa using hs
    obtain ⟨hm, hafter⟩ := m.longest_append_of_stops hstops r
    have hhead : (m.chars ++ c :: r).head? ≠ some '%' := by
      refine m.head?_chars_ne ?_
      rintro ⟨hc⟩
      exact absurd rfl (percent_ne_conversion h)
    right
    rw [afterPercent_directive hhead hafter (ofChar?_eq_some_iff.mpr h), hm]
  | @unknown m c h hc =>
    obtain rfl : m.chars ++ c :: r = s := by simpa using hs
    have hhead : (m.chars ++ c :: r).head? ≠ some '%' := by
      refine m.head?_chars_ne ?_
      rintro ⟨rfl⟩
      exact hc rfl
    obtain ⟨more, hchars, hrest⟩ := m.exists_longest_append (c :: r)
    cases more with
    | nil =>
      right
      rw [afterPercent_unknown hhead hrest.symm (ofChar?_eq_none_iff.mpr h), hchars,
        List.append_nil]
    | cons d more =>
      -- The character after the setting belongs to a longer setting.
      rw [List.cons_append] at hrest
      obtain ⟨rfl, htail⟩ := List.cons.inj hrest
      by_cases hr : r = []
      · subst hr
        obtain ⟨rfl, hafter⟩ := List.append_eq_nil_iff.mp htail.symm
        right
        rw [afterPercent_unfinished hhead hafter, hchars]
      · left
        have hpos := List.length_pos_iff.mpr hr
        have hlen := congrArg List.length htail
        rw [List.length_append] at hlen
        rw [rest_afterPercent hhead, List.length_tail]
        omega
  | unfinished m =>
    obtain rfl : m.chars = s := by simpa using hs
    obtain ⟨more, hchars, hrest⟩ := m.exists_longest_append []
    have hnil : ([] : List Char).head? = some '%' → m.chars ≠ [] := nofun
    have hhead := m.head?_chars_ne hnil
    rw [List.append_nil] at hchars hrest hhead
    obtain ⟨rfl, hafter⟩ := List.append_eq_nil_iff.mp hrest.symm
    right
    rw [afterPercent_unfinished hhead hafter, hchars, List.append_nil]

theorem ne_nil (h : Spells q t r) : t ≠ [] := by
  cases h <;> exact List.cons_ne_nil _ _

theorem eq_literal {c : Char} (h : Spells q t r) (hs : t ++ r = c :: s) (hc : c ≠ '%') :
    q = .literal c ∧ t = [c] ∧ r = s := by
  cases h with
  | literal =>
    obtain ⟨rfl, rfl⟩ := List.cons.inj hs
    exact ⟨rfl, rfl, rfl⟩
  | percent | directive | unknown | unfinished => exact absurd (List.cons.inj hs).1.symm hc

end Spells

namespace Piece

open Setting

/-- The piece that is split off at a percent sign is one that the text can be taken for. -/
theorem exists_spells_afterPercent (s : List Char) :
    ∃ text, Spells (afterPercent s).1 text (afterPercent s).2 ∧
      text ++ (afterPercent s).2 = '%' :: s := by
  by_cases h : s.head? = some '%'
  · obtain ⟨rest, rfl⟩ := List.head?_eq_some_iff.mp h
    exact ⟨['%', '%'], .percent rest, rfl⟩
  · have hsplit := longest_append_after s
    cases ha : after s with
    | nil =>
      rw [ha, List.append_nil] at hsplit
      rw [afterPercent_unfinished h ha]
      exact ⟨_, .unfinished (longest s), by rw [hsplit, List.append_nil]⟩
    | cons c rest =>
      rw [ha] at hsplit
      have htext : '%' :: ((longest s).chars ++ [c]) ++ rest = '%' :: s := by
        simpa using hsplit
      cases hc : Conversion.ofChar? c with
      | some conversion =>
        rw [afterPercent_directive h ha hc]
        exact ⟨_, .directive _ (ofChar?_eq_some_iff.mp hc) rest, htext⟩
      | none =>
        rw [afterPercent_unknown h ha hc]
        refine ⟨_, .unknown _ (ofChar?_eq_none_iff.mp hc) ?_ rest, htext⟩
        -- A second percent sign would be that of a pair.
        rintro rfl hnil
        rw [← hsplit, hnil] at h
        exact h rfl

theorem longest_literal {c : Char} (h : c ≠ '%') (s : List Char) :
    Longest (.literal c) [c] s := by
  refine ⟨.literal h s, ?_⟩
  intro q t r hq hs
  obtain ⟨-, rfl, -⟩ := hq.eq_literal hs h
  rfl

theorem exists_longest_afterPercent (s : List Char) :
    ∃ text, Longest (afterPercent s).1 text (afterPercent s).2 ∧
      text ++ (afterPercent s).2 = '%' :: s := by
  obtain ⟨text, hspells, htext⟩ := exists_spells_afterPercent s
  refine ⟨text, ⟨hspells, ?_⟩, htext⟩
  intro q t r hq hs
  have hlen := congrArg List.length hs
  rw [List.length_append, List.length_append] at hlen
  rcases hq.rest_lt_or_eq (hs.trans htext) with hlt | heq
  · omega
  · rw [heq] at hlen
    exact Nat.le_of_add_le_add_right hlen.le

end Piece

namespace Longest

open Piece

variable {q : Piece} {t r s : List Char}

theorem afterPercent_eq (h : Longest q t r) (hs : t ++ r = '%' :: s) :
    afterPercent s = (q, r) := by
  obtain ⟨text, hspells, htext⟩ := exists_spells_afterPercent s
  have hle := h.length_le _ _ _ hspells (htext.trans hs.symm)
  have hlen := congrArg List.length (htext.trans hs.symm)
  rw [List.length_append, List.length_append] at hlen
  rcases h.spells.rest_lt_or_eq hs with hlt | heq
  · omega
  · exact heq

end Longest

namespace Piece

@[simp] theorem split_nil : split [] = [] := by
  rw [split]

theorem split_literal {c : Char} (h : c ≠ '%') (s : List Char) :
    split (c :: s) = literal c :: split s := by
  rw [split, if_neg h]

theorem split_percent (s : List Char) :
    split ('%' :: s) = (afterPercent s).1 :: split (afterPercent s).2 := by
  rw [split, if_pos rfl]

end Piece

theorem cut_split (s : List Char) : Cut (Piece.split s) s := by
  induction s using Piece.split.induct with
  | case1 =>
    rw [Piece.split_nil]
    exact .nil
  | case2 s ih =>
    obtain ⟨text, hlongest, htext⟩ := Piece.exists_longest_afterPercent s
    rw [Piece.split_percent, ← htext]
    exact .cons hlongest ih
  | case3 c s h ih =>
    rw [Piece.split_literal h]
    exact .cons (Piece.longest_literal h s) ih

theorem Cut.eq_split {pieces : List Piece} {s : List Char} (h : Cut pieces s) :
    pieces = Piece.split s := by
  induction h with
  | nil => exact Piece.split_nil.symm
  | @cons p text rest pieces hp hrest ih =>
    have hne : text ++ rest ≠ [] := List.append_ne_nil_of_left_ne_nil hp.spells.ne_nil rest
    obtain ⟨c, s, hs⟩ := List.exists_cons_of_ne_nil hne
    rw [hs, ih]
    by_cases hc : c = '%'
    · subst hc
      rw [Piece.split_percent, hp.afterPercent_eq hs]
    · obtain ⟨rfl, -, rfl⟩ := hp.spells.eq_literal hs hc
      rw [Piece.split_literal hc]

end MessageCatalog.Message
