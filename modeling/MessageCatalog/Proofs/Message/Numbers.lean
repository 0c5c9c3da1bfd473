import Mathlib.Algebra.Ring.Int.Defs
import MessageCatalog.Digest.Sha256
import MessageCatalog.Proofs.Message.Filling

/-!
Numbers in fields. Whatever the flags and the width, blanks aside a field reads back as the number
that its conversion makes of the argument, and a number of 64 bits is shown alike whether it is
given as a signed or as an unsigned one.
-/
namespace MessageCatalog.Message

/-- The value of a digit, of either case, in a base up to sixteen. -/
def digit? (base : ℕ) (c : Char) : Option ℕ :=
  ((Digest.hexValue? c).map UInt8.toNat).filter (· < base)

def addDigit? (base value : ℕ) (c : Char) : Option ℕ := (digit? base c).map (base * value + ·)

/-- The number that digits spell, at least one. -/
def natural? (base : ℕ) (s : List Char) : Option ℕ :=
  if s = [] then none else s.foldlM (addDigit? base) 0

/-- The number that digits spell, a negative one after a minus sign. -/
def integer? (base : ℕ) : List Char → Option ℤ
  | '-' :: s => (natural? base s).map fun (n : ℕ) => -(n : ℤ)
  | s => (natural? base s).map fun (n : ℕ) => (n : ℤ)

def Conversion.base : Conversion → ℕ
  | .text | .signed | .unsigned => 10
  | .hexLower | .hexUpper => 16

section Reading

variable {base n k : ℕ} {s digits : List Char} {value : ℤ}

theorem natural?_of_ne_nil (h : s ≠ []) : natural? base s = s.foldlM (addDigit? base) 0 :=
  if_neg h

theorem ne_nil_of_natural? (h : natural? base s = some n) : s ≠ [] := by
  rintro rfl
  cases h

theorem exists_digit?_of_foldlM (h : s.foldlM (addDigit? base) k = some n) :
    ∀ c ∈ s, ∃ d, digit? base c = some d := by
  induction s generalizing k with
  | nil => simp
  | cons c s ih =>
    rw [List.foldlM_cons] at h
    obtain ⟨k', hk', h⟩ := Option.bind_eq_some_iff.mp h
    obtain ⟨d, hd, -⟩ := Option.map_eq_some_iff.mp hk'
    intro x hx
    rcases List.mem_cons.mp hx with rfl | hx
    · exact ⟨d, hd⟩
    · exact ih h x hx

theorem notMem_of_natural? {c : Char} (h : natural? base s = some n) (hc : digit? base c = none) :
    c ∉ s := by
  intro hmem
  rw [natural?_of_ne_nil (ne_nil_of_natural? h)] at h
  obtain ⟨d, hd⟩ := exists_digit?_of_foldlM h c hmem
  rw [hc] at hd
  cases hd

@[simp] theorem digit?_minus (base : ℕ) : digit? base '-' = none := by
  have h : Digest.hexValue? '-' = none := by decide
  simp [digit?, h]

@[simp] theorem digit?_blank (base : ℕ) : digit? base ' ' = none := by
  have h : Digest.hexValue? ' ' = none := by decide
  simp [digit?, h]

theorem digit?_zero (h : 0 < base) : digit? base '0' = some 0 := by
  have hvalue : Digest.hexValue? '0' = some 0 := by decide
  simp [digit?, hvalue, Option.filter, h]

theorem integer?_of_head?_ne (h : s.head? ≠ some '-') :
    integer? base s = (natural? base s).map fun (n : ℕ) => (n : ℤ) := by
  unfold integer?
  split
  · exact absurd rfl h
  · rfl

theorem integer?_of_natural? (h : natural? base s = some n) : integer? base s = some (n : ℤ) := by
  have hminus : s.head? ≠ some '-' := fun hhead =>
    notMem_of_natural? h (digit?_minus base) (List.mem_of_mem_head? hhead)
  rw [integer?_of_head?_ne hminus, h, Option.map_some]

theorem integer?_minus (h : natural? base s = some n) :
    integer? base ('-' :: s) = some (-(n : ℤ)) := by
  rw [integer?, h, Option.map_some]

theorem blank_notMem_of_integer? (h : integer? base s = some value) : ' ' ∉ s := by
  unfold integer? at h
  split at h
  · obtain ⟨n, hn, -⟩ := Option.map_eq_some_iff.mp h
    have hnot := notMem_of_natural? hn (digit?_blank base)
    simp [hnot]
  · obtain ⟨n, hn, -⟩ := Option.map_eq_some_iff.mp h
    exact notMem_of_natural? hn (digit?_blank base)

/-- Zeros in front of digits are worth nothing. -/
theorem natural?_zeros (hbase : 0 < base) (hdigits : digits ≠ []) (k : ℕ) :
    natural? base (List.replicate k '0' ++ digits) = natural? base digits := by
  induction k with
  | zero => rfl
  | succ k ih =>
    have hne : List.replicate k '0' ++ digits ≠ [] := List.append_ne_nil_of_right_ne_nil _ hdigits
    rw [natural?_of_ne_nil hne] at ih
    rw [List.replicate_succ, List.cons_append, natural?_of_ne_nil (List.cons_ne_nil _ _),
      List.foldlM_cons, addDigit?, digit?_zero hbase, ← ih]
    simp

theorem integer?_zeros {sign : List Char} (hbase : 0 < base)
    (hsign : sign = ['-'] ∨ sign = [] ∧ digits.head? ≠ some '-') (k : ℕ)
    (h : integer? base (sign ++ digits) = some value) :
    integer? base (sign ++ List.replicate k '0' ++ digits) = some value := by
  rcases hsign with rfl | ⟨rfl, hhead⟩
  · obtain ⟨n, hn, rfl⟩ := Option.map_eq_some_iff.mp h
    rw [← natural?_zeros hbase (ne_nil_of_natural? hn) k] at hn
    exact integer?_minus hn
  · rw [List.nil_append, integer?_of_head?_ne hhead] at h
    obtain ⟨n, hn, rfl⟩ := Option.map_eq_some_iff.mp h
    rw [← natural?_zeros hbase (ne_nil_of_natural? hn) k] at hn
    exact integer?_of_natural? hn

/-- What stands in a field besides blanks is the number that is set into it. -/
theorem integer?_of_field {layout : Layout} {conversion : Conversion} {t : List Char}
    (h : Field layout conversion s t) (hnumber : conversion ≠ .text) (hbase : 0 < base)
    (hs : integer? base s = some value) : integer? base (t.filter (· != ' ')) = some value := by
  have hkeep {u : List Char} (hu : integer? base u = some value) : u.filter (· != ' ') = u := by
    have hblank := blank_notMem_of_integer? hu
    apply List.filter_eq_self.mpr
    intro c hc
    rw [bne_iff_ne]
    rintro rfl
    exact hblank hc
  have hdrop (k : ℕ) : (List.replicate k ' ').filter (· != ' ') = [] := by simp
  cases hleft : layout.left with
  | true =>
    obtain ⟨k, rfl⟩ := h.left hleft
    rw [List.filter_append, hdrop, List.append_nil, hkeep hs, hs]
  | false =>
    cases hzeros : layout.zeros with
    | true =>
      obtain ⟨sign, digits, k, rfl, hsign, rfl⟩ := h.zeros hleft hzeros hnumber
      have ht := integer?_zeros hbase hsign k hs
      rw [hkeep ht, ht]
    | false =>
      obtain ⟨k, rfl⟩ := h.right hleft (Or.inl hzeros)
      rw [List.filter_append, hdrop, List.nil_append, hkeep hs, hs]

end Reading

section Numerals

variable {base : ℕ}

theorem natural?_toDigits {f : Char → Char} (hbase : 1 < base)
    (hf : ∀ d < base, digit? base (f d.digitChar) = some d) (n : ℕ) :
    natural? base ((Nat.toDigits base n).map f) = some n := by
  have hne (n : ℕ) : (Nat.toDigits base n).map f ≠ [] := by simp
  rw [natural?_of_ne_nil (hne n)]
  induction n using Nat.strongRecOn with
  | ind n ih =>
    rcases Nat.lt_or_ge n base with hlt | hge
    · simp [Nat.toDigits_of_lt_base hlt, addDigit?, hf n hlt]
    · -- The last digit comes off the end.
      have hpos : 0 < n := by omega
      have hrest := ih (n / base) (Nat.div_lt_self hpos hbase)
      have hmod := hf (n % base) (Nat.mod_lt n (by omega))
      rw [Nat.toDigits_of_base_le hbase hge, List.map_append, List.foldlM_append, hrest]
      simp [addDigit?, hmod, Nat.div_add_mod]

theorem natural?_decimal (n : ℕ) : natural? 10 (Nat.toDigits 10 n) = some n := by
  have h := natural?_toDigits (f := id) (by decide : 1 < 10) (by decide) n
  rwa [List.map_id] at h

theorem natural?_hexLower (n : ℕ) : natural? 16 (Nat.toDigits 16 n) = some n := by
  have h := natural?_toDigits (f := id) (by decide : 1 < 16) (by decide) n
  rwa [List.map_id] at h

theorem natural?_hexUpper (n : ℕ) :
    natural? 16 ((Nat.toDigits 16 n).map Char.toUpper) = some n :=
  natural?_toDigits (by decide) (by decide) n

theorem integer?_repr (value : ℤ) : integer? 10 value.repr.toList = some value := by
  cases value with
  | ofNat n =>
    have hn := integer?_of_natural? (natural?_decimal n)
    rwa [← Nat.toList_repr] at hn
  | negSucc n =>
    have hrepr : (Int.negSucc n).repr.toList = '-' :: Nat.toDigits 10 (n + 1) := by
      rw [Int.repr, String.toList_append, Nat.toList_repr]
      rfl
    rw [hrepr, integer?_minus (natural?_decimal (n + 1)), Int.negSucc_eq]
    rfl

theorem integer?_numeral {conversion : Conversion} {value : ℤ}
    (h : conversion = .signed ∨ 0 ≤ value) (hnumber : conversion ≠ .text) :
    integer? conversion.base (conversion.numeral value) = some value := by
  have hnat (hc : conversion ≠ .signed) : ∃ n : ℕ, value = n :=
    Int.eq_ofNat_of_zero_le (h.resolve_left hc)
  cases conversion with
  | text => exact absurd rfl hnumber
  | signed => exact integer?_repr value
  | unsigned => exact integer?_repr value
  | hexLower =>
    obtain ⟨n, rfl⟩ := hnat (by simp)
    exact integer?_of_natural? (natural?_hexLower n)
  | hexUpper =>
    obtain ⟨n, rfl⟩ := hnat (by simp)
    exact integer?_of_natural? (natural?_hexUpper n)

end Numerals

section Directives

variable (m : Setting) {c : Char} {conversion : Conversion}

theorem Piece.split_directive (hc : (c, conversion) ∈ conversions) :
    Piece.split ('%' :: (m.chars ++ [c])) = [.directive m.layout conversion] := by
  obtain ⟨hm, hafter⟩ := m.longest_append_of_stops (Setting.stops_conversion hc) []
  have hhead : (m.chars ++ [c]).head? ≠ some '%' := by
    apply m.head?_chars_ne
    rintro ⟨rfl⟩
    exact absurd rfl (Setting.percent_ne_conversion hc)
  rw [split_percent, afterPercent_directive hhead hafter (ofChar?_eq_some_iff.mpr hc), hm, split_nil]

theorem format_directive (hc : (c, conversion) ∈ conversions) (arg : Argument) :
    (format (String.ofList ('%' :: (m.chars ++ [c]))) [arg]).toList =
      m.layout.pad conversion (arg.shown conversion) := by
  rw [format, String.toList_ofList, String.toList_ofList, Piece.split_directive m hc,
    ← render_eq_shown]
  exact List.append_nil _

/-- Only the bits of a number are shown, not how they were given. -/
theorem shown_toUInt64 (hnumber : conversion ≠ .text) (v : Int64) :
    (Argument.unsigned v.toUInt64).shown conversion = (Argument.signed v).shown conversion := by
  simp only [Argument.shown, toNat_toUInt64]
  congr 1
  cases conversion with
  | text => exact absurd rfl hnumber
  | signed => exact Int.emod_bmod _ _
  | _ => exact Int.emod_emod _ _

theorem shown_signed (hnumber : conversion ≠ .text) (v : Int64) :
    (Argument.signed v).shown conversion =
      conversion.numeral (if conversion = .signed then v.toInt else v.toInt % 2 ^ 64) := by
  rw [Argument.shown]
  congr 1
  cases conversion with
  | text => exact absurd rfl hnumber
  | signed => exact v.toInt_bmod
  | _ => rfl

/-- A directive for a number, of any flags, width and modifiers, shows a signed argument as this
number or, if it is not for signed ones, as the number modulo 2⁶⁴. The field is as long as its width
or as the numeral, with zeros between sign and digits only; without its blanks it reads back as the
number. The unsigned number of the same bits is shown alike. -/
theorem format_number (hc : (c, conversion) ∈ conversions) (hnumber : conversion ≠ .text)
    (v : Int64) :
    let number := if conversion = .signed then v.toInt else v.toInt % 2 ^ 64
    let filled := format (String.ofList ('%' :: (m.chars ++ [c])))
    Field m.layout conversion (conversion.numeral number) (filled [.signed v]).toList ∧
      integer? conversion.base ((filled [.signed v]).toList.filter (· != ' ')) = some number ∧
      (v.toUInt64.toNat : ℤ) = v.toInt % 2 ^ 64 ∧
      filled [.unsigned v.toUInt64] = filled [.signed v] := by
  intro number filled
  have hbase : 0 < conversion.base := by cases conversion <;> decide
  have hsigned := format_directive m hc (.signed v)
  have hfield := field_pad m.layout conversion (conversion.numeral number)
  rw [shown_signed hnumber] at hsigned
  rw [← hsigned] at hfield
  have hread : integer? conversion.base (conversion.numeral number) = some number := by
    apply integer?_numeral _ hnumber
    by_cases h : conversion = .signed
    · exact Or.inl h
    · right
      rw [show number = v.toInt % 2 ^ 64 from if_neg h]
      exact Int.emod_nonneg _ (by decide)
  refine ⟨hfield, integer?_of_field hfield hnumber hbase hread, toNat_toUInt64 v, ?_⟩
  apply String.toList_inj.mp
  rw [format_directive m hc, shown_toUInt64 hnumber, ← format_directive m hc]

end Directives

/-- The least number behind its sign and four zeros; as a signed and as an unsigned argument. -/
theorem format_number_least :
    ('d', .signed) ∈ conversions ∧ Conversion.signed ≠ .text ∧
      format "%024ld" [.signed Int64.minValue] = "-00009223372036854775808" ∧
      integer? 10 "-00009223372036854775808".toList = some (-2 ^ 63) ∧
      format "%024ld" [.unsigned 0x8000000000000000] = format "%024ld" [.signed Int64.minValue] := by
  have hc : ('d', .signed) ∈ conversions := by decide
  have hfilled : format "%024ld" [.signed Int64.minValue] = "-00009223372036854775808" := by
    decide +kernel
  have hblanks : "-00009223372036854775808".toList.filter (· != ' ') =
      "-00009223372036854775808".toList := by
    decide +kernel
  have hdigits : ∀ c ∈ ['2', '4'], c.isDigit := List.all_eq_true.mp rfl
  have hspec := format_number ⟨['0'], ['2', '4'], ['l'], by simp, hdigits, by simp, by simp⟩ hc
    (by simp) Int64.minValue
  have hread : integer? 10 ((format "%024ld" [.signed Int64.minValue]).toList.filter (· != ' ')) =
      some (-2 ^ 63) := hspec.2.1
  rw [hfilled, hblanks] at hread
  exact ⟨hc, by decide, hfilled, hread, hspec.2.2.2⟩

end MessageCatalog.Message
