import MessageCatalog.Proofs.Plural.Cut
import MessageCatalog.Proofs.Plural.Machine
import MessageCatalog.Proofs.Plural.Repair

/-!
The bytes ahead against their tokens. A cursor that stands at no blank stands between two tokens,
and what the bytes start with is what the first token is.
-/
namespace MessageCatalog.Plural

abbrev tokens (ahead : Bytes) : List Token := Token.scanFrom .nothing ahead

section Ahead

variable {ahead : Bytes}

theorem not_blanks_of_starts (hb : startsWithBlank ahead = false) {w : Bytes} (hw : w <+: ahead)
    (hne : w ≠ []) : ¬Blanks w := by
  obtain ⟨b, w, rfl⟩ := List.exists_cons_of_ne_nil hne
  obtain ⟨rest, rfl⟩ := hw
  intro hblanks
  have hstart : startsWithBlank (b :: (w ++ rest)) = true := by
    simpa [startsWithBlank] using hblanks b List.mem_cons_self
  rw [List.cons_append, hstart] at hb
  cases hb

theorem tokens_drop_blank (hb : startsWithBlank ahead = true) :
    tokens (ahead.drop 1) = tokens ahead := by
  cases ahead with
  | nil => cases hb
  | cons b ahead =>
    have hblanks : Blanks [b] := by simpa [startsWithBlank, Blanks] using hb
    exact (Token.scanFrom_blanks hblanks ahead).symm

/-- The first token ahead is spelled by the first bytes, unless it is a stray one. -/
theorem exists_spells {b : UInt8} (hb : startsWithBlank (b :: ahead) = false)
    (h : (tokens (b :: ahead)).head? ≠ some .stray) :
    ∃ t w after, t.Spells w ∧ b :: ahead = w ++ after ∧
      tokens (b :: ahead) = t :: tokens after := by
  obtain ⟨w, after, hfirst⟩ := Token.exists_first h
  rcases hfirst.scan with ⟨hblanks, -⟩ | ⟨t, hspells, hscan⟩
  · have hne := hfirst.longest.piece.ne_nil
    exact absurd hblanks (not_blanks_of_starts hb hfirst.longest.starts hne)
  · exact ⟨t, w, after, hspells, hfirst.split, hscan⟩

theorem tokens_eq_nil_iff (hb : startsWithBlank ahead = false) :
    tokens ahead = [] ↔ ahead = [] := by
  constructor
  · intro h
    cases ahead with
    | nil => rfl
    | cons b ahead =>
      have hhead : (tokens (b :: ahead)).head? ≠ some .stray := by simp [h]
      obtain ⟨t, w, after, -, -, hscan⟩ := exists_spells hb hhead
      rw [h] at hscan
      cases hscan
  · rintro rfl
    rfl

theorem exists_spells_head {t : Token} {ts : List Token} (hb : startsWithBlank ahead = false)
    (h : tokens ahead = t :: ts) (ht : t ≠ .stray) : ∃ w, t.Spells w ∧ w <+: ahead := by
  cases ahead with
  | nil => cases h
  | cons b ahead =>
    have hhead : (tokens (b :: ahead)).head? ≠ some .stray := by simpa [h] using ht
    obtain ⟨t', w, after, hspells, hsplit, hscan⟩ := exists_spells hb hhead
    rw [h] at hscan
    obtain ⟨rfl, -⟩ := List.cons.inj hscan
    exact ⟨w, hspells, after, hsplit.symm⟩

theorem spells_operator {t : Token} {op : Operator} {w : Bytes} (ht : t.operator? = some op)
    (h : t.Spells w) : w = ascii op.symbol := by
  cases t with
  | minus joined =>
    obtain rfl := Option.some.inj ht
    exact h
  | operator op' =>
    obtain rfl := Option.some.inj ht
    exact h
  | _ => cases ht

theorem operatorAt?_tokens (hb : startsWithBlank ahead = false) (level : ℕ) :
    operatorAt? level (tokens ahead) = (operatorAhead? level ahead).map fun op =>
      (op, tokens (ahead.drop op.symbol.length)) := by
  cases hop : operatorAhead? level ahead with
  | some op =>
    have hlevel : op.level = level := mem_tried_iff.mp (List.mem_of_find?_eq_some hop)
    have hstarts : (ascii op.symbol).isPrefixOf ahead = true := by simpa using List.find?_some hop
    obtain ⟨rest, rfl⟩ := List.isPrefixOf_iff_prefix.mp hstarts
    have hrest : op = .less ∨ op = .greater → rest.head? ≠ some 61 := by
      -- The longer operator is looked for first.
      intro hhalf hhead
      obtain ⟨rest, rfl⟩ := List.head?_eq_some_iff.mp hhead
      rcases hhalf with rfl | rfl
      · obtain rfl : 2 = level := hlevel
        cases hop
      · obtain rfl : 2 = level := hlevel
        cases hop
    obtain ⟨t, ht, hscan⟩ := Token.scanFrom_symbol op hrest
    have hlen : op.symbol.length = (ascii op.symbol).length := (List.length_map _).symm
    rw [tokens, hscan, operatorAt?_cons ht, if_pos hlevel, Option.map_some, hlen,
      List.drop_left]
  | none =>
    rw [Option.map_none]
    by_contra hne
    obtain ⟨⟨op, rest⟩, hnext⟩ := Option.ne_none_iff_exists'.mp hne
    obtain ⟨t, ht, htokens⟩ := operatorAt?_eq_some hnext
    have hlevel : op.level = level := by
      by_contra hlevel
      rw [htokens, operatorAt?_cons ht, if_neg hlevel] at hnext
      cases hnext
    obtain ⟨w, hspells, hw⟩ := exists_spells_head hb htokens (Token.ne_of_operator ht rfl)
    rw [spells_operator ht hspells] at hw
    have hnot := List.find?_eq_none.mp hop op (mem_tried_iff.mpr hlevel)
    exact hnot (List.isPrefixOf_iff_prefix.mpr hw)

/-- A character that is a token by itself, whatever follows it. -/
structure Mark (c : Char) (t : Token) : Prop where
  tokens_cons : ∀ rest, tokens (c.toUInt8 :: rest) = t :: tokens rest
  spells : ∀ w, t.Spells w → w = ascii [c]
  ne_stray : t ≠ .stray

theorem mark_opening : Mark '(' .opening := ⟨fun _ => rfl, fun _ h => h, by simp⟩

theorem mark_closing : Mark ')' .closing := ⟨fun _ => rfl, fun _ h => h, by simp⟩

theorem mark_count : Mark 'n' .count := ⟨fun _ => rfl, fun _ h => h, by simp⟩

theorem mark_question : Mark '?' .question := ⟨fun _ => rfl, fun _ h => h, by simp⟩

theorem mark_colon : Mark ':' .colon := ⟨fun _ => rfl, fun _ h => h, by simp⟩

theorem Mark.starts_or_not {c : Char} {t : Token} (hm : Mark c t)
    (hb : startsWithBlank ahead = false) :
    ((ascii [c]).isPrefixOf ahead = true ∧ tokens ahead = t :: tokens (ahead.drop 1)) ∨
      (ascii [c]).isPrefixOf ahead = false ∧ ∀ ts, tokens ahead ≠ t :: ts := by
  cases hstarts : (ascii [c]).isPrefixOf ahead with
  | true =>
    obtain ⟨rest, rfl⟩ := List.isPrefixOf_iff_prefix.mp hstarts
    exact Or.inl ⟨rfl, hm.tokens_cons rest⟩
  | false =>
    refine Or.inr ⟨rfl, fun ts h => ?_⟩
    obtain ⟨w, hspells, hw⟩ := exists_spells_head hb h hm.ne_stray
    rw [hm.spells w hspells, ← List.isPrefixOf_iff_prefix, hstarts] at hw
    cases hw

theorem exists_numeral_ahead (h : startsWithDigit ahead = true) :
    ∃ digits rest, ahead = digits ++ rest ∧ Numeral digits ∧ startsWithDigit rest = false ∧
      tokens ahead = .number (digitsValue maxConstant digits) :: tokens rest := by
  have hsplit : ahead = ahead.takeWhile isDigit ++ ahead.dropWhile isDigit :=
    List.takeWhile_append_dropWhile.symm
  obtain ⟨hnumeral, -⟩ := longest_digits h
  have hrest := startsWithDigit_dropWhile ahead
  have hscan := Token.scanFrom_digits hnumeral hrest
  rw [← hsplit] at hscan
  exact ⟨_, _, hsplit, hnumeral, hrest, hscan⟩

theorem tokens_ne_number (hb : startsWithBlank ahead = false) (h : startsWithDigit ahead = false)
    (value : ℕ) (ts : List Token) : tokens ahead ≠ .number value :: ts := by
  intro htokens
  obtain ⟨w, ⟨hnumeral, -⟩, rest, rfl⟩ := exists_spells_head hb htokens (by simp)
  obtain ⟨b, w, rfl⟩ := List.exists_cons_of_ne_nil hnumeral.1
  have hdigit : startsWithDigit (b :: w ++ rest) = true := hnumeral.2 b List.mem_cons_self
  rw [hdigit] at h
  cases h

theorem negative_starts_or_not (hb : startsWithBlank ahead = false) :
    (((ascii ['-']).isPrefixOf ahead && startsWithDigit (ahead.drop 1)) = true ∧
      tokens ahead = .minus true :: tokens (ahead.drop 1)) ∨
    ((ascii ['-']).isPrefixOf ahead && startsWithDigit (ahead.drop 1)) = false ∧
      ∀ ts, tokens ahead ≠ .minus true :: ts := by
  cases hstarts : (ascii ['-']).isPrefixOf ahead with
  | true =>
    obtain ⟨rest, rfl⟩ := List.isPrefixOf_iff_prefix.mp hstarts
    have hscan : tokens (45 :: rest) = .minus (startsWithDigit rest) :: tokens rest :=
      Token.scanFrom_minus rest
    change (true && startsWithDigit rest) = true ∧ tokens (45 :: rest) = _ ∨
      (true && startsWithDigit rest) = false ∧ ∀ ts, tokens (45 :: rest) ≠ _
    rw [Bool.true_and, hscan]
    cases startsWithDigit rest with
    | true => exact Or.inl ⟨rfl, rfl⟩
    | false => exact Or.inr ⟨rfl, fun ts => by simp⟩
  | false =>
    refine Or.inr ⟨rfl, fun ts h => ?_⟩
    obtain ⟨w, rfl, hw⟩ := exists_spells_head hb h (by simp)
    rw [← List.isPrefixOf_iff_prefix, hstarts] at hw
    cases hw

end Ahead

end MessageCatalog.Plural
