import MessageCatalog.Proofs.Plural.Cut

/-!
Blanks in the text of an expression. Wherever they are put in, the same expression is read or none,
unless they part two bytes that are read as one token or as a sign and its number.
-/
namespace MessageCatalog.Plural

def doubles : List Bytes :=
  [['|', '|'], ['&', '&'], ['=', '='], ['!', '='], ['<', '='], ['>', '=']].map ascii

/-- Two bytes that a blank would part: digits of a number, a sign and a digit, or the two bytes of an
operator. -/
def Joined (a b : UInt8) : Prop :=
  (isDigit a ∧ isDigit b) ∨ (a = 45 ∧ isDigit b) ∨ [a, b] ∈ doubles

instance (a b : UInt8) : Decidable (Joined a b) := inferInstanceAs (Decidable (_ ∨ _ ∨ _))

theorem joined_of_pair? {a b : UInt8} {op : Operator} (h : Pending.pair? a b = some op) :
    Joined a b := by
  have hab := symbol_of_pair? h
  have hall : ∀ op : Operator, (ascii op.symbol).length = 2 → ascii op.symbol ∈ doubles := by
    intro op
    cases op <;> decide
  have hop := hall op (by rw [hab]; rfl)
  rw [hab] at hop
  exact Or.inr (Or.inr hop)

theorem not_joined_blank {a b : UInt8} (hb : b = 32 ∨ b = 9) : ¬Joined a b := by
  have hdigit : isDigit b = false := by
    rcases hb with rfl | rfl <;> rfl
  have hdouble : ∀ pair ∈ doubles, pair.getLast? ≠ some 32 ∧ pair.getLast? ≠ some 9 := by decide
  rintro (⟨-, hjoined⟩ | ⟨-, hjoined⟩ | hjoined)
  · exact absurd hjoined (by simp [hdigit])
  · exact absurd hjoined (by simp [hdigit])
  · obtain ⟨hspace, htab⟩ := hdouble _ hjoined
    rcases hb with rfl | rfl
    · exact hspace rfl
    · exact htab rfl

namespace Pending

/-- A token that a byte can have begun or gone on with. -/
def EndsWith : Pending → UInt8 → Prop
  | nothing, _ => True
  | number _, b => isDigit b
  | minus, b => b = 45
  | half a, b => b = a

theorem endsWith_start (b : UInt8) : (start b).2.EndsWith b := by
  rcases Token.start_cases b with hblank | hdigit | rfl | hlone | hhalf | hstray
  · rcases hblank with rfl | rfl <;> trivial
  · rw [Token.start_digit hdigit]
    exact hdigit
  · rfl
  · obtain ⟨⟨t, hstart, -⟩, -⟩ := Token.start_lone hlone
    rw [hstart]
    trivial
  · rw [(Token.start_half hhalf).1]
    rfl
  · rw [hstray]
    trivial

theorem endsWith_step (p : Pending) (b : UInt8) : (p.step b).2.EndsWith b := by
  have hstart := endsWith_start b
  cases p with
  | nothing => exact hstart
  | minus => exact hstart
  | number value =>
    cases hd : isDigit b with
    | true => simp [step, hd, EndsWith]
    | false => simpa [step, hd] using hstart
  | half a =>
    cases hop : pair? a b with
    | some op => simp [step, hop, EndsWith]
    | none => simpa [step, hop] using hstart

end Pending

namespace Token

/-- A token that the next byte is not joined to ends before it. -/
theorem scanFrom_eq_finish {p : Pending} {a : UInt8} (hp : p.EndsWith a) {s : Bytes}
    (hs : ∀ b, s.head? = some b → ¬Joined a b) :
    scanFrom p s = p.finish ++ scanFrom .nothing s := by
  have hdigit : (isDigit a ∨ a = 45) → startsWithDigit s = false := by
    intro ha
    cases s with
    | nil => rfl
    | cons b s =>
      refine Bool.eq_false_iff.mpr fun hb => hs b rfl ?_
      rcases ha with ha | ha
      · exact Or.inl ⟨ha, hb⟩
      · exact Or.inr (Or.inl ⟨ha, hb⟩)
  cases p with
  | nothing => rfl
  | number value =>
    have hnone : ∀ b ∈ ([] : Bytes), isDigit b := nofun
    exact scanFrom_number hnone value (hdigit (Or.inl hp))
  | minus =>
    have hscan : scanFrom .minus s = .minus (startsWithDigit s) :: scanFrom .nothing s :=
      scanFrom_minus s
    rwa [hdigit (Or.inr hp)] at hscan
  | half c =>
    obtain rfl : a = c := hp
    apply scanFrom_half
    intro b hb
    by_contra hop
    obtain ⟨op, hop⟩ := Option.ne_none_iff_exists'.mp hop
    exact hs b hb (joined_of_pair? hop)

/-- Blanks that part no joined bytes leave the tokens as they are. -/
theorem scanFrom_append_blanks {u w v : Bytes} (hw : Blanks w)
    (h : ∀ a b, u.getLast? = some a → v.head? = some b → ¬Joined a b) {p : Pending}
    (hp : u = [] → p = .nothing) : scanFrom p (u ++ (w ++ v)) = scanFrom p (u ++ v) := by
  induction u generalizing p with
  | nil =>
    rw [hp rfl]
    exact scanFrom_blanks hw v
  | cons a u ih =>
    show (p.step a).1 ++ _ = (p.step a).1 ++ _
    congr 1
    cases u with
    | nil =>
      -- The last byte before the blanks has begun the token that they might end.
      have hends := Pending.endsWith_step p a
      have hv : ∀ b, v.head? = some b → ¬Joined a b := fun b => h a b rfl
      have hwv : ∀ b, (w ++ v).head? = some b → ¬Joined a b := by
        intro b hb
        cases w with
        | nil => exact hv b hb
        | cons c w =>
          obtain rfl : c = b := Option.some.inj hb
          exact not_joined_blank (hw c List.mem_cons_self)
      show scanFrom _ (w ++ v) = scanFrom _ v
      rw [scanFrom_eq_finish hends hwv, scanFrom_eq_finish hends hv, scanFrom_blanks hw]
    | cons c u => exact ih (fun x b hx => h x b hx) nofun

end Token

theorem isTerminator_blanks {w : Bytes} (h : Blanks w) : ∀ b ∈ w, (!isTerminator b) = true := by
  intro b hb
  rcases h b hb with rfl | rfl <;> rfl

/-- Blanks put into a text, well-formed or not, change nothing in the expression that is read or in
the refusal to read one, where they part no joined bytes. -/
theorem ofBytes?_insert_blanks (u w v : Bytes) (hw : Blanks w)
    (h : ∀ a b, u.getLast? = some a → v.head? = some b → ¬Joined a b) :
    Expr.ofBytes? (u ++ w ++ v) = Expr.ofBytes? (u ++ v) := by
  have hscan : Token.scan (u ++ w ++ v) = Token.scan (u ++ v) := by
    unfold Token.scan
    have happend : ∀ x, (u ++ x).takeWhile (!isTerminator ·) = _ := fun _ => List.takeWhile_append
    rw [List.append_assoc, happend, happend]
    split_ifs
    · rw [List.takeWhile_append_of_pos (isTerminator_blanks hw)]
      refine Token.scanFrom_append_blanks hw ?_ fun _ => rfl
      intro a b ha hb
      rw [List.head?_takeWhile] at hb
      exact h a b ha (Option.filter_eq_some_iff.mp hb).1
    · -- A terminator before the blanks ends the text.
      rfl
  rw [Expr.ofBytes?, hscan]
  rfl

/-- Blanks behind half an operator and before a sign, in a group that stays open. -/
theorem ofBytes?_insert_blanks_unclosed :
    (Blanks [32, 9, 32] ∧ ∀ a b, (ascii "(n ? 1<".toList).getLast? = some a →
      (ascii "-10 +".toList).head? = some b → ¬Joined a b) ∧
    Expr.ofBytes? (ascii "(n ? 1<".toList ++ [32, 9, 32] ++ ascii "-10 +".toList) =
      Expr.ofBytes? (ascii "(n ? 1<".toList ++ ascii "-10 +".toList) := by
  have hlast : (ascii "(n ? 1<".toList).getLast? = some 60 := rfl
  have hhead : (ascii "-10 +".toList).head? = some 45 := rfl
  have hjoined : ∀ a b, (ascii "(n ? 1<".toList).getLast? = some a →
      (ascii "-10 +".toList).head? = some b → ¬Joined a b := by
    intro a b ha hb
    rw [hlast] at ha
    rw [hhead] at hb
    obtain rfl := Option.some.inj ha
    obtain rfl := Option.some.inj hb
    decide
  exact ⟨⟨by decide, hjoined⟩, ofBytes?_insert_blanks _ [32, 9, 32] _ (by decide) hjoined⟩

end MessageCatalog.Plural
