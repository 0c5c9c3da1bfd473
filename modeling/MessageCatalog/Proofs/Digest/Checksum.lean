import MessageCatalog.Digest.Sha256
import MessageCatalog.Proofs.ByteOrder
import MessageCatalog.Proofs.Text.Basic

/-!
Checksums as text. A text is a checksum exactly where it has the 64 digits of a digest, of any case,
between blanks and behind one label or none; so each checksum that is written is read back.
-/
namespace MessageCatalog.Digest

section Digits

variable {c : Char} {n : UInt8}

/-- What holds of the first sixteen numbers holds of every half of a byte. -/
theorem forall_half {p : UInt8 → Prop} (h : ∀ n < 16, p (UInt8.ofNat n)) (hn : n < 16) : p n := by
  have hp := h n.toNat (UInt8.lt_iff_toNat_lt.mp hn)
  rwa [UInt8.ofNat_toNat] at hp

theorem hexValue?_eq_none (h : 128 ≤ c.toNat) : hexValue? c = none := by
  have hle (d : Char) (hd : d.toNat < 128) : ¬c ≤ d := by
    rw [Char.le_def, UInt32.le_iff_toNat_le]
    exact Nat.not_le.mpr (Nat.lt_of_lt_of_le hd h)
  have h9 := hle '9' (by decide)
  have hf := hle 'f' (by decide)
  have hF := hle 'F' (by decide)
  simp [hexValue?, h9, hf, hF]

theorem toNat_hexDigit_lt (h : n < 16) : (hexDigit n).toNat < 128 := by
  revert h
  apply forall_half
  decide

theorem toLower_hexDigit (h : n < 16) : (hexDigit n).toLower = hexDigit n := by
  revert h
  apply forall_half
  decide

/-- A digit has a value in either case. -/
theorem hexValue?_eq_some_iff : hexValue? c = some n ↔ n < 16 ∧ c.toLower = hexDigit n := by
  revert c
  apply Text.forall_char
  · have hvalue : ∀ k < 128, (hexValue? (Char.ofNat k)).all
        (fun n => n < 16 ∧ (Char.ofNat k).toLower = hexDigit n) = true := by
      decide
    have hdigit : ∀ k < 128, ∀ n < 16, (Char.ofNat k).toLower = hexDigit (UInt8.ofNat n) →
        hexValue? (Char.ofNat k) = some (UInt8.ofNat n) := by
      decide +kernel
    intro k hk
    constructor
    · intro hn
      exact of_decide_eq_true ((Option.all_eq_true _ _).mp (hvalue k hk) n hn)
    · rintro ⟨hn, hlower⟩
      revert hlower
      exact forall_half (p := fun n => _ = hexDigit n → _ = some n) (hdigit k hk) hn
  · intro c hc
    rw [hexValue?_eq_none hc, Text.toLower_eq_self hc]
    refine iff_of_false nofun ?_
    rintro ⟨hn, rfl⟩
    exact absurd (toNat_hexDigit_lt hn) (Nat.not_lt.mpr hc)

end Digits

/-- The digits of a byte string, in any mix of cases. -/
def SpellsHex (digits : List Char) (s : Bytes) : Prop := digits.map Char.toLower = hexText s

theorem hexText_cons (b : UInt8) (s : Bytes) :
    hexText (b :: s) = hexDigit (b / 16) :: hexDigit (b % 16) :: hexText s :=
  rfl

theorem length_hexText (s : Bytes) : (hexText s).length = 2 * s.length := by
  induction s with
  | nil => rfl
  | cons b s ih =>
    rw [hexText_cons, List.length_cons, List.length_cons, List.length_cons, ih]
    omega

theorem join_halves (b : UInt8) : 16 * (b / 16) + b % 16 = b := by
  have hb := b.toNat_lt
  rw [← UInt8.toNat_inj]
  simp only [UInt8.toNat_add, UInt8.toNat_mul, UInt8.toNat_div, UInt8.toNat_mod, UInt8.reduceToNat]
  omega

theorem halves_join {x y : UInt8} (hx : x < 16) (hy : y < 16) :
    (16 * x + y) / 16 = x ∧ (16 * x + y) % 16 = y := by
  rw [UInt8.lt_iff_toNat_lt] at hx hy
  simp only [UInt8.reduceToNat] at hx hy
  rw [← UInt8.toNat_inj, ← UInt8.toNat_inj]
  simp only [UInt8.toNat_add, UInt8.toNat_mul, UInt8.toNat_div, UInt8.toNat_mod, UInt8.reduceToNat]
  omega

theorem half_lt (b : UInt8) : b / 16 < 16 ∧ b % 16 < 16 := by
  have hb := b.toNat_lt
  rw [UInt8.lt_iff_toNat_lt, UInt8.lt_iff_toNat_lt]
  simp only [UInt8.toNat_div, UInt8.toNat_mod, UInt8.reduceToNat]
  omega

theorem readHex?_eq_some_iff {digits : List Char} {s : Bytes} :
    readHex? digits = some s ↔ SpellsHex digits s := by
  induction digits using readHex?.induct generalizing s with
  | case1 =>
    cases s <;> simp [readHex?, SpellsHex, hexText]
  | case2 c =>
    cases s <;> simp [readHex?, SpellsHex, hexText]
  | case3 a b rest ih =>
    constructor
    · intro h
      simp only [readHex?, Option.bind_eq_bind, Option.bind_eq_some_iff] at h
      obtain ⟨x, hx, y, hy, t, ht, h⟩ := h
      obtain rfl := Option.some.inj h
      obtain ⟨hx, ha⟩ := hexValue?_eq_some_iff.mp hx
      obtain ⟨hy, hb⟩ := hexValue?_eq_some_iff.mp hy
      obtain ⟨hhigh, hlow⟩ := halves_join hx hy
      have hrest : rest.map Char.toLower = hexText t := ih.mp ht
      rw [SpellsHex, hexText_cons, hhigh, hlow, List.map_cons, List.map_cons, ha, hb, hrest]
    · intro h
      cases s with
      | nil => cases h
      | cons c s =>
        rw [SpellsHex, hexText_cons, List.map_cons, List.map_cons, List.cons.injEq,
          List.cons.injEq] at h
        obtain ⟨ha, hb, hrest⟩ := h
        have hx := hexValue?_eq_some_iff.mpr ⟨(half_lt c).1, ha⟩
        have hy := hexValue?_eq_some_iff.mpr ⟨(half_lt c).2, hb⟩
        simp [readHex?, hx, hy, ih.mpr hrest, join_halves]

theorem exists_value_of_mem {digits : List Char} {s : Bytes} (h : SpellsHex digits s) {c : Char}
    (hc : c ∈ digits) : ∃ n, hexValue? c = some n := by
  have hmem : c.toLower ∈ hexText s := h ▸ List.mem_map_of_mem hc
  obtain ⟨b, -, hb⟩ := List.mem_flatMap.mp hmem
  rw [List.mem_cons, List.mem_singleton] at hb
  rcases hb with hb | hb
  · exact ⟨_, hexValue?_eq_some_iff.mpr ⟨(half_lt b).1, hb⟩⟩
  · exact ⟨_, hexValue?_eq_some_iff.mpr ⟨(half_lt b).2, hb⟩⟩

/-- A digit is neither a blank nor the start of a label. -/
theorem kind_digit {c : Char} {n : UInt8} (h : hexValue? c = some n) :
    Text.isBlank c = false ∧ c ≠ 's' := by
  have hall : ∀ c : Char, (hexValue? c).isSome → Text.isBlank c = false ∧ c ≠ 's' := by
    apply Text.forall_char
    · decide
    · intro c hc hsome
      rw [hexValue?_eq_none hc] at hsome
      cases hsome
  exact hall c (h ▸ rfl)

/-- The 64 digits of a digest, between blanks and behind one label or none. -/
def IsChecksum (s : String) (digest : Bytes) : Prop :=
  ∃ before core after digits, s.toList = before ++ core ++ after ∧
    (∀ c ∈ before, Text.isBlank c) ∧ (∀ c ∈ after, Text.isBlank c) ∧
    (core = digits ∨ core = label ++ digits) ∧ digits.length = 64 ∧ SpellsHex digits digest

theorem SpellsHex.length_eq {digits : List Char} {s : Bytes} (h : SpellsHex digits s) :
    digits.length = 2 * s.length := by
  rw [← length_hexText, ← h, List.length_map]

theorem readChecksum?_eq_some_iff {s : String} {digest : Bytes} :
    readChecksum? s = some digest ↔ IsChecksum s digest := by
  constructor
  · intro h
    obtain ⟨before, after, hb, ha, hs⟩ := Text.exists_trim s.toList
    obtain ⟨hread, hlen⟩ := Option.filter_eq_some_iff.mp h
    rw [beq_iff_eq] at hlen
    have hspells := readHex?_eq_some_iff.mp hread
    have h64 := hspells.length_eq
    rw [hlen] at h64
    refine ⟨before, _, after, _, hs, hb, ha, ?_, h64, hspells⟩
    split_ifs with hlabel
    · obtain ⟨digits, hcore⟩ := List.isPrefixOf_iff_prefix.mp hlabel
      right
      rw [← hcore, List.drop_left]
    · exact Or.inl rfl
  · rintro ⟨before, core, after, digits, hs, hb, ha, hcore, h64, hspells⟩
    have hdigits : ∀ c ∈ digits, Text.isBlank c = false ∧ c ≠ 's' := by
      intro c hc
      obtain ⟨n, hn⟩ := exists_value_of_mem hspells hc
      exact kind_digit hn
    have hall : label.all (!Text.isBlank ·) = true := rfl
    have hlabel : ∀ c ∈ label, Text.isBlank c = false := by simpa using hall
    have hvisible : ∀ c ∈ core, Text.isBlank c = false := by
      rcases hcore with rfl | rfl
      · exact fun c hc => (hdigits c hc).1
      · intro c hc
        rcases List.mem_append.mp hc with hc | hc
        · exact hlabel c hc
        · exact (hdigits c hc).1
    have htrim : Text.trimChars s.toList = core := by
      rw [hs]
      exact Text.trimChars_append hb ha (fun c hc => hvisible c (List.mem_of_mem_head? hc))
        fun c hc => hvisible c (List.mem_of_getLast? hc)
    have hlen : digest.length = 32 := by
      have h := hspells.length_eq
      omega
    have hcut : (if label.isPrefixOf core then core.drop label.length else core) = digits := by
      rcases hcore with rfl | rfl
      · -- Digits start with no label.
        refine if_neg fun hprefix => ?_
        have hmem : 's' ∈ core := by
          refine (List.isPrefixOf_iff_prefix.mp hprefix).subset ?_
          decide
        exact (hdigits _ hmem).2 rfl
      · rw [if_pos (List.isPrefixOf_iff_prefix.mpr (List.prefix_append _ _)), List.drop_left]
    rw [readChecksum?, htrim, hcut, readHex?_eq_some_iff.mpr hspells]
    simp [hlen]

theorem spellsHex_hexText (s : Bytes) : SpellsHex (hexText s) s := by
  induction s with
  | nil => rfl
  | cons b s ih =>
    have hrest : (hexText s).map Char.toLower = hexText s := ih
    rw [SpellsHex, hexText_cons, List.map_cons, List.map_cons, toLower_hexDigit (half_lt b).1,
      toLower_hexDigit (half_lt b).2, hrest]

theorem length_sha256 (image : ByteArray) : (sha256 image).length = 32 := by
  unfold sha256
  rw [ByteOrder.length_flatMap_bytes]
  rfl

theorem readChecksum?_checksum (image : ByteArray) :
    readChecksum? (checksum image) = some (sha256 image) := by
  have h64 : (hexText (sha256 image)).length = 64 := by
    rw [length_hexText, length_sha256]
  refine readChecksum?_eq_some_iff.mpr ⟨[], _, [], hexText (sha256 image), ?_, nofun, nofun,
    Or.inr rfl, h64, spellsHex_hexText _⟩
  rw [checksum, String.toList_ofList, List.nil_append, List.append_nil]

end MessageCatalog.Digest
