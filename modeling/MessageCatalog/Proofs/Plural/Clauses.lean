import Mathlib.Data.List.TakeWhile
import MessageCatalog.Plural.Rule
import MessageCatalog.Proofs.Plural.Reading

/-!
The two clauses of a plural rule, found in a header that may hold anything else. A marker is a word
and the equals sign that ends it, so it can only begin where no other marker is still open.
-/
namespace MessageCatalog

section Search

variable {word x y before rest : Bytes} {a : UInt8}

/-- A text without the last byte of a marker completes no marker that is begun before it. -/
theorem infix_of_infix_append_left (h : word ++ [a] <:+: x ++ y) (ha : a ∉ y) :
    word ++ [a] <:+: x := by
  rcases List.infix_append_iff.mp h with hx | hy | ⟨first, second, hsplit, hfirst, hsecond⟩
  · exact hx
  · exact absurd (hy.mem (by simp)) ha
  · rcases List.eq_nil_or_concat second with rfl | ⟨second, b, rfl⟩
    · rw [List.append_nil] at hsplit
      exact hsplit ▸ hfirst.isInfix
    · rw [List.concat_eq_append, ← List.append_assoc] at hsplit
      obtain ⟨-, hab⟩ := List.append_inj' hsplit rfl
      obtain rfl : a = b := List.singleton_inj.mp hab
      exact absurd (hsecond.mem (by simp)) ha

/-- A marker is not begun in a text without its first byte. -/
theorem infix_of_infix_append_right (h : a :: word <:+: x ++ y) (ha : a ∉ x) :
    a :: word <:+: y := by
  rcases List.infix_append_iff.mp h with hx | hy | ⟨first, second, hsplit, hfirst, hsecond⟩
  · exact absurd (hx.mem List.mem_cons_self) ha
  · exact hy
  · cases first with
    | nil =>
      rw [List.nil_append] at hsplit
      exact hsplit ▸ hsecond.isInfix
    | cons b first =>
      obtain ⟨rfl, -⟩ := List.cons.inj hsplit
      exact absurd (hfirst.mem List.mem_cons_self) ha

/-- A byte that a marker does not have keeps the texts before and after it apart. -/
theorem infix_or_infix_of_notMem (h : word <:+: x ++ a :: y) (ha : a ∉ word) :
    word <:+: x ∨ word <:+: y := by
  rcases List.infix_append_iff.mp h with hx | hy | ⟨first, second, rfl, hfirst, hsecond⟩
  · exact Or.inl hx
  · rcases List.infix_cons_iff.mp hy with hstart | hy
    · cases word with
      | nil => exact Or.inl List.nil_infix
      | cons b word =>
        obtain ⟨rfl, -⟩ := List.cons_prefix_cons.mp hstart
        exact absurd List.mem_cons_self ha
    · exact Or.inr hy
  · cases second with
    | nil =>
      rw [List.append_nil]
      exact Or.inl hfirst.isInfix
    | cons b second =>
      obtain ⟨rfl, -⟩ := List.cons_prefix_cons.mp hsecond
      exact absurd (by simp) ha

/-- A marker that occurs around the end of another one is begun after it, where neither word ends
with the other. -/
theorem infix_or_infix_of_marker {other : Bytes} (h : word ++ [a] <:+: x ++ (other ++ [a]) ++ y)
    (ha : a ∉ word) (hother : a ∉ other) (hends : ¬word <:+ other) (hends' : ¬other <:+ word) :
    word ++ [a] <:+: x ∨ word ++ [a] <:+: y := by
  -- Up to the end of the other marker, this one ends with it or before its word.
  have hfirst : word ++ [a] <:+: x ++ (other ++ [a]) → word ++ [a] <:+: x := by
    intro hpart
    rw [← List.append_assoc] at hpart
    rcases List.infix_concat_iff.mp hpart with ⟨before, hbefore⟩ | hpart
    · rw [← List.append_assoc] at hbefore
      have hword : word <:+ x ++ other := ⟨before, List.append_cancel_right hbefore⟩
      rcases List.suffix_or_suffix_of_suffix hword (List.suffix_append x other) with hs | hs
      · exact absurd hs hends
      · exact absurd hs hends'
    · exact infix_of_infix_append_left hpart hother
  rcases List.infix_append_iff.mp h with hx | hy | ⟨first, second, hsplit, hbegun, hrest⟩
  · exact Or.inl (hfirst hx)
  · exact Or.inr hy
  · rcases List.eq_nil_or_concat second with rfl | ⟨second, b, rfl⟩
    · rw [List.append_nil] at hsplit
      exact Or.inl (hfirst (hsplit ▸ hbegun.isInfix))
    · rw [List.concat_eq_append] at hsplit hrest
      rw [← List.append_assoc] at hbegun
      rcases List.suffix_concat_iff.mp hbegun with rfl | ⟨first, rfl, -⟩
      · exact Or.inr (hsplit ▸ hrest.isInfix)
      · -- The last byte of a marker would stand inside its word.
        rw [← List.append_assoc] at hsplit
        obtain ⟨rfl, -⟩ := List.append_inj' hsplit rfl
        exact absurd (by simp) ha

/-- The search stops at a marker that does not occur before. -/
theorem after?_append (ha : a ∉ word) (h : ¬word ++ [a] <:+: before) :
    after? (word ++ [a]) (before ++ (word ++ [a]) ++ rest) = some rest := by
  induction before with
  | nil =>
    obtain ⟨b, marker, hmarker⟩ := List.exists_cons_of_ne_nil
      (List.append_ne_nil_of_right_ne_nil word (List.cons_ne_nil a []))
    rw [hmarker]
    simp [after?]
  | cons b before ih =>
    have hstart : ¬word ++ [a] <+: b :: (before ++ (word ++ [a]) ++ rest) := by
      intro hstart
      have hlonger : b :: before ++ word <+: b :: (before ++ (word ++ [a]) ++ rest) := by
        refine ⟨[a] ++ rest, ?_⟩
        simp
      have hlength : (word ++ [a]).length ≤ (b :: before ++ word).length := by
        simp
      have hpart := (List.prefix_of_prefix_length_le hstart hlonger hlength).isInfix
      exact h (infix_of_infix_append_left hpart ha)
    have hrest : ¬word ++ [a] <:+: before := fun hpart => h (List.infix_cons hpart)
    rw [List.cons_append, List.cons_append, after?, if_neg, ih hrest]
    rwa [List.isPrefixOf_iff_prefix]

end Search

namespace Plural

theorem ended_cString {tail : Bytes} (h : Ended tail) : Ended (cString tail) := by
  rcases h with rfl | ⟨b, rest, rfl, hb⟩
  · exact Or.inl rfl
  · rcases hb with rfl | hb
    · exact Or.inl rfl
    · refine Or.inr ⟨b, cString rest, ?_, Or.inr hb⟩
      rcases hb with rfl | rfl | rfl <;> rfl

theorem startsWithDigit_cString {rest : Bytes} (h : startsWithDigit rest = false) :
    startsWithDigit (cString rest) = false := by
  cases rest with
  | nil => rfl
  | cons b rest =>
    by_cases hb : b = 0
    · subst hb
      rfl
    · have hcons : cString (b :: rest) = b :: cString rest := by simp [cString, hb]
      rw [hcons]
      exact h

theorem ofBytes?_append {text tail : Bytes} (h : ∀ b ∈ text, isTerminator b = false)
    (ht : Ended tail) : Expr.ofBytes? (text ++ tail) = Expr.ofBytes? text := by
  have hall : ∀ b ∈ text, (!isTerminator b) = true := by simpa using h
  rw [Expr.ofBytes?, Token.scan, List.takeWhile_append_of_pos hall, takeWhile_ended ht,
    List.append_nil, Expr.ofBytes?, Token.scan, List.takeWhile_eq_self_iff.mpr hall]

namespace Rule

theorem not_isBlank_of_isDigit {b : UInt8} (h : isDigit b) : isBlank b = false := by
  revert b
  apply forall_byte
  decide +kernel

theorem count?_append {blanks numeral rest : Bytes} (hblanks : ∀ b ∈ blanks, isBlank b)
    (hnumeral : Numeral numeral) (hrest : startsWithDigit rest = false) :
    count? (blanks ++ numeral ++ rest) =
      if 0 < natural numeral ∧ natural numeral < UInt32.size then
        some (UInt32.ofNat (natural numeral))
      else none := by
  have hdrop : (blanks ++ numeral ++ rest).dropWhile isBlank = numeral ++ rest := by
    obtain ⟨b, digits, rfl⟩ := List.exists_cons_of_ne_nil hnumeral.1
    have hb := not_isBlank_of_isDigit (hnumeral.2 b List.mem_cons_self)
    rw [List.append_assoc, List.dropWhile_append_of_pos hblanks, List.cons_append]
    exact List.dropWhile_cons_of_neg (by simp [hb])
  have htake : (numeral ++ rest).takeWhile isDigit = numeral := by
    have hnil : rest.takeWhile isDigit = [] := by
      cases rest with
      | nil => rfl
      | cons b rest => exact List.takeWhile_cons_of_neg (by simpa [startsWithDigit] using hrest)
    rw [List.takeWhile_append_of_pos hnumeral.2, hnil, List.append_nil]
  unfold count?
  dsimp only
  rw [hdrop, htake, digitsValue_eq_min]
  by_cases h : 0 < natural numeral ∧ natural numeral < UInt32.size
  · rw [if_pos h, Nat.min_eq_left (Nat.le_of_lt h.2), if_pos h]
  · rw [if_neg h, if_neg (by omega)]

/-- The words of the markers, without the equals sign. -/
def expressionWord : Bytes := ascii ['p', 'l', 'u', 'r', 'a', 'l']

def countWord : Bytes := ascii ['n', 'p', 'l', 'u', 'r', 'a', 'l', 's']

theorem expressionMarker_eq : expressionMarker = expressionWord ++ [61] := rfl

theorem countMarker_eq : countMarker = countWord ++ [61] := rfl

section Clauses

variable {pre mid text blanks numeral rest : Bytes}

theorem after?_expressionMarker (h : ¬expressionMarker <:+: pre) :
    after? expressionMarker (pre ++ expressionMarker ++ rest) = some rest := by
  rw [expressionMarker_eq] at h ⊢
  exact after?_append (by decide) h

theorem after?_countMarker (h : ¬countMarker <:+: pre) :
    after? countMarker (pre ++ countMarker ++ rest) = some rest := by
  rw [countMarker_eq] at h ⊢
  exact after?_append (by decide) h

theorem not_infix_countClause (hpre : ¬expressionMarker <:+: pre)
    (hmid : ¬expressionMarker <:+: mid) (hblanks : ∀ b ∈ blanks, isBlank b) (hnumeral : Numeral numeral) :
    ¬expressionMarker <:+: pre ++ countMarker ++ (blanks ++ numeral ++ mid) := by
  intro h
  rw [expressionMarker_eq] at hpre hmid h
  rw [countMarker_eq] at h
  have hstart : 112 ∉ blanks ++ numeral := by
    intro hmem
    rcases List.mem_append.mp hmem with hb | hb
    · exact absurd (hblanks 112 hb) (by decide)
    · exact absurd (hnumeral.2 112 hb) (by decide)
  rcases infix_or_infix_of_marker h (by decide) (by decide) (by decide) (by decide) with h | h
  · exact hpre h
  · exact hmid (infix_of_infix_append_right h hstart)

theorem not_infix_expressionClause {stop : UInt8} (hpre : ¬countMarker <:+: pre)
    (htext : ¬countMarker <:+: text) (hmid : ¬countMarker <:+: mid) (hstop : stop ∉ countMarker) :
    ¬countMarker <:+: pre ++ expressionMarker ++ (text ++ stop :: mid) := by
  intro h
  rw [countMarker_eq] at hpre htext hmid hstop h
  rw [expressionMarker_eq] at h
  rcases infix_or_infix_of_marker h (by decide) (by decide) (by decide) (by decide) with h | h
  · exact hpre h
  · rcases infix_or_infix_of_notMem h hstop with h | h
    · exact htext h
    · exact hmid h

end Clauses

/-- The rule with a number of forms and an expression, if the number is positive and has 32 bits and
the expression is readable. -/
def declared? (forms : ℕ) (expr : Option Expr) : Option Rule :=
  if 0 < forms ∧ forms < UInt32.size then expr.map (⟨·, UInt32.ofNat forms, true⟩) else none

theorem ofHeader?_eq {header expression count : Bytes}
    (he : after? expressionMarker (cString header) = some expression)
    (hc : after? countMarker (cString header) = some count) :
    ofHeader? header = (count? count).bind fun forms =>
      (Expr.ofBytes? expression).map (⟨·, forms, true⟩) := by
  simp only [ofHeader?, he, hc, Option.bind_eq_bind, Option.bind_some, Option.map_eq_bind]
  rfl

theorem ofHeader?_eq_declared? {header text tail blanks numeral rest : Bytes}
    (he : after? expressionMarker (cString header) = some (text ++ tail))
    (hc : after? countMarker (cString header) = some (blanks ++ numeral ++ rest))
    (htext : ∀ b ∈ text, isTerminator b = false) (htail : Ended tail)
    (hblanks : ∀ b ∈ blanks, isBlank b) (hnumeral : Numeral numeral)
    (hrest : startsWithDigit rest = false) :
    ofHeader? header = declared? (natural numeral) (Expr.ofBytes? text) := by
  rw [ofHeader?_eq he hc, ofBytes?_append htext htail, count?_append hblanks hnumeral hrest,
    declared?]
  split <;> rfl

section Order

variable {pre mid text blanks numeral : Bytes} (hpre : 0 ∉ pre ∧ ¬expressionMarker <:+: pre ∧
  ¬countMarker <:+: pre) (hmid : 0 ∉ mid) (htext : ∀ b ∈ text, isTerminator b = false)
  (hblanks : ∀ b ∈ blanks, isBlank b) (hnumeral : Numeral numeral)
include hpre hmid htext hblanks hnumeral

omit hpre hmid in
/-- The parts of the clauses hold no NUL, so a header is not cut off inside them. -/
theorem zero_notMem : 0 ∉ text ∧ 0 ∉ blanks ∧ 0 ∉ numeral ∧ 0 ∉ expressionMarker ∧
    0 ∉ countMarker := by
  refine ⟨fun h => ?_, fun h => ?_, fun h => ?_, by decide, by decide⟩
  · exact absurd (htext 0 h) (by decide)
  · exact absurd (hblanks 0 h) (by decide)
  · exact absurd (hnumeral.2 0 h) (by decide)

theorem ofHeader?_countFirst {tail : Bytes} (hexpression : ¬expressionMarker <:+: mid)
    (hdigit : startsWithDigit mid = false) (htail : Ended tail) :
    ofHeader? (pre ++ countMarker ++ blanks ++ numeral ++ mid ++ expressionMarker ++ text ++ tail) =
      declared? (natural numeral) (Expr.ofBytes? text) := by
  obtain ⟨hpre0, hpreExpression, hpreCount⟩ := hpre
  have hzero := zero_notMem htext hblanks hnumeral
  have hcut : cString (pre ++ countMarker ++ blanks ++ numeral ++ mid ++ expressionMarker ++ text ++
      tail) = pre ++ countMarker ++ blanks ++ numeral ++ mid ++ expressionMarker ++ text ++
        cString tail := cString_append (by simp [*]) tail
  have he : after? expressionMarker (pre ++ countMarker ++ (blanks ++ numeral ++ mid) ++
      expressionMarker ++ (text ++ cString tail)) = some (text ++ cString tail) :=
    after?_expressionMarker (not_infix_countClause hpreExpression hexpression hblanks hnumeral)
  have hc : after? countMarker (pre ++ countMarker ++ (blanks ++ numeral ++ (mid ++
      expressionMarker ++ text ++ cString tail))) =
        some (blanks ++ numeral ++ (mid ++ expressionMarker ++ text ++ cString tail)) :=
    after?_countMarker hpreCount
  have hrest : startsWithDigit (mid ++ expressionMarker ++ text ++ cString tail) = false := by
    cases mid with
    | nil => rfl
    | cons b mid => exact hdigit
  refine ofHeader?_eq_declared? ?_ ?_ htext (ended_cString htail) hblanks hnumeral hrest
  · rw [hcut]
    simpa only [List.append_assoc] using he
  · rw [hcut]
    simpa only [List.append_assoc] using hc

theorem ofHeader?_expressionFirst {stop : UInt8} {rest : Bytes}
    (hstop : stop = 59 ∨ stop = 13 ∨ stop = 10) (htextCount : ¬countMarker <:+: text)
    (hmidCount : ¬countMarker <:+: mid) (hdigit : startsWithDigit rest = false) :
    ofHeader? (pre ++ expressionMarker ++ text ++ stop :: mid ++ countMarker ++ blanks ++ numeral ++
      rest) = declared? (natural numeral) (Expr.ofBytes? text) := by
  obtain ⟨hpre0, hpreExpression, hpreCount⟩ := hpre
  have hzero := zero_notMem htext hblanks hnumeral
  have hstop0 : 0 ≠ stop := by
    rcases hstop with rfl | rfl | rfl <;> decide
  have hstopCount : stop ∉ countMarker := by
    rcases hstop with rfl | rfl | rfl <;> decide
  have hcut : cString (pre ++ expressionMarker ++ text ++ stop :: mid ++ countMarker ++ blanks ++
      numeral ++ rest) = pre ++ expressionMarker ++ text ++ stop :: mid ++ countMarker ++ blanks ++
        numeral ++ cString rest := cString_append (by simp [*]) rest
  have he : after? expressionMarker (pre ++ expressionMarker ++ (text ++ (stop :: mid ++
      countMarker ++ blanks ++ numeral ++ cString rest))) =
        some (text ++ (stop :: mid ++ countMarker ++ blanks ++ numeral ++ cString rest)) :=
    after?_expressionMarker hpreExpression
  have hc : after? countMarker (pre ++ expressionMarker ++ (text ++ stop :: mid) ++ countMarker ++
      (blanks ++ numeral ++ cString rest)) = some (blanks ++ numeral ++ cString rest) :=
    after?_countMarker (not_infix_expressionClause hpreCount htextCount hmidCount hstopCount)
  have hended : Ended (stop :: mid ++ countMarker ++ blanks ++ numeral ++ cString rest) :=
    Or.inr ⟨stop, _, rfl, Or.inr hstop⟩
  refine ofHeader?_eq_declared? ?_ ?_ htext hended hblanks hnumeral (startsWithDigit_cString hdigit)
  · rw [hcut]
    simpa only [List.append_assoc] using he
  · rw [hcut]
    simpa only [List.append_assoc] using hc

end Order

/-- A header declares the rule of its two clauses, in either order: the count with its blanks and
all its digits, and the expression up to its end. What else stands before the first NUL may look like
a clause where neither marker is complete, or where its clause was found already. -/
theorem ofHeader?_clauses {pre mid text blanks numeral : Bytes}
    (hpre : 0 ∉ pre ∧ ¬utf8 "plural=" <:+: pre ∧ ¬utf8 "nplurals=" <:+: pre) (hmid : 0 ∉ mid)
    (htext : ∀ b ∈ text, b ∉ [0, 59, 13, 10]) (hblanks : ∀ b ∈ blanks, b ∈ [9, 10, 12, 13, 32])
    (hnumeral : Numeral numeral) :
    (∀ tail, ¬utf8 "plural=" <:+: mid → startsWithDigit mid = false → Ended tail →
      ofHeader? (pre ++ utf8 "nplurals=" ++ blanks ++ numeral ++ mid ++ utf8 "plural=" ++ text ++
        tail) = declared? (natural numeral) (Expr.ofBytes? text)) ∧
      ∀ stop rest, stop = 59 ∨ stop = 13 ∨ stop = 10 → ¬utf8 "nplurals=" <:+: text →
        ¬utf8 "nplurals=" <:+: mid → startsWithDigit rest = false →
          ofHeader? (pre ++ utf8 "plural=" ++ text ++ stop :: mid ++ utf8 "nplurals=" ++ blanks ++
            numeral ++ rest) = declared? (natural numeral) (Expr.ofBytes? text) := by
  have hexpression : utf8 "plural=" = expressionMarker := by decide +kernel
  have hcount : utf8 "nplurals=" = countMarker := by decide +kernel
  rw [hexpression, hcount] at *
  have hends : ∀ b ∈ text, isTerminator b = false := by
    intro b hb
    simpa [isTerminator, and_assoc] using htext b hb
  have hblank : ∀ b ∈ blanks, isBlank b := by
    intro b hb
    have hlist := hblanks b hb
    simp only [List.mem_cons, List.not_mem_nil, or_false] at hlist
    rcases hlist with rfl | rfl | rfl | rfl | rfl <;> rfl
  constructor
  · intro tail hmidExpression hdigit htail
    exact ofHeader?_countFirst hpre hmid hends hblank hnumeral hmidExpression hdigit htail
  · intro stop rest hstop htextCount hmidCount hdigit
    exact ofHeader?_expressionFirst hpre hmid hends hblank hnumeral hstop htextCount hmidCount
      hdigit

/-- Look-alikes of both markers around the clauses: half a marker at the end of what comes before,
other clauses after the first ones, and a count that is written with zeros and blanks. -/
theorem ofHeader?_clauses_lookAlikes :
    ofHeader? (utf8 "Plural-Forms: plurals=4; nplural" ++ utf8 "nplurals=" ++ [9, 10, 32] ++
      utf8 "0002" ++ utf8 "; nplural n" ++ utf8 "plural=" ++ utf8 "n != 1" ++
        0 :: utf8 "; nplurals=3") = some ⟨.notOne, 2, true⟩ ∧
    ofHeader? (utf8 "Plural-Forms: plurals=4; nplural" ++ utf8 "plural=" ++ utf8 "n != 1" ++
      13 :: utf8 "; nplural n" ++ utf8 "nplurals=" ++ [9, 10, 32] ++ utf8 "0002" ++
        utf8 "; nplurals=3 plural=n") = some ⟨.notOne, 2, true⟩ := by
  have hrule : declared? (natural (utf8 "0002")) (Expr.ofBytes? (utf8 "n != 1")) =
      some ⟨.notOne, 2, true⟩ := by decide +kernel
  obtain ⟨hcountFirst, hexpressionFirst⟩ := @ofHeader?_clauses
    (utf8 "Plural-Forms: plurals=4; nplural") (utf8 "; nplural n") (utf8 "n != 1") [9, 10, 32]
    (utf8 "0002") (by decide +kernel) (by decide +kernel) (by decide +kernel) (by decide +kernel)
    (by decide +kernel)
  rw [hrule] at hcountFirst hexpressionFirst
  exact ⟨hcountFirst _ (by decide +kernel) (by decide +kernel) (Or.inr ⟨_, _, rfl, Or.inl rfl⟩),
    hexpressionFirst _ _ (Or.inr (Or.inl rfl)) (by decide +kernel) (by decide +kernel)
      (by decide +kernel)⟩

end Rule

end Plural

end MessageCatalog
