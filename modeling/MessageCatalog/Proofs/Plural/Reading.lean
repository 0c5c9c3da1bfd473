import MessageCatalog.Proofs.Plural.Scanning

/-!
Reading the tokens of a derivation gives its tree, unless it nests too deep or has too many
operators; then it gives nothing.
-/
namespace MessageCatalog.Plural

/-- The next token is no operator of the levels below the given one. -/
def Unjoined (level : ℕ) (rest : List Token) : Prop := ∀ l < level, operatorAt? l rest = none

theorem level_eq_of_mem_joining {k : ℕ} {op : Operator} (h : op ∈ joining (k + 1)) :
    op.level = k := by
  match k with
  | 0 | 1 | 2 | 3 | 4 => cases op <;> simp [joining] at h <;> rfl
  | k + 5 => cases h

theorem operatorAt?_cons {t : Token} {op : Operator} (h : t.operator? = some op) (level : ℕ)
    (rest : List Token) :
    operatorAt? level (t :: rest) = if op.level = level then some (op, rest) else none := by
  rw [operatorAt?, h]
  by_cases hl : op.level = level <;> simp [Option.filter, hl]

theorem operatorAt?_eq_none {t : Token} (h : t.operator? = none) (level : ℕ) (rest : List Token) :
    operatorAt? level (t :: rest) = none := by
  rw [operatorAt?, h]
  rfl

theorem extend_of_none {level : ℕ} {left : Reading} (h : operatorAt? level left.rest = none)
    (operand : Reader) (budget : ℕ) : extend level operand budget left = some left := by
  unfold extend
  rw [h]

theorem extend_zero {level : ℕ} {left : Reading} {next : Operator × List Token}
    (h : operatorAt? level left.rest = some next) (operand : Reader) :
    extend level operand 0 left = none := by
  unfold extend
  rw [h]

theorem extend_succ {level : ℕ} {left : Reading} {op : Operator} {rest : List Token}
    (h : operatorAt? level left.rest = some (op, rest)) (operand : Reader) (budget : ℕ) :
    extend level operand (budget + 1) left = (operand rest).bind fun right =>
      extend level operand budget
        ⟨.binary op left.expr right.expr, left.nodes + right.nodes + 1, right.rest⟩ := by
  conv_lhs => unfold extend
  rw [h]
  rfl

theorem tier_succ (group : Reader) (k : ℕ) (ts : List Token) :
    tier group (k + 1) ts = (tier group k ts).bind (extend k (tier group k) maxNodes) :=
  rfl

theorem digitsValue_eq_min (bound : ℕ) (digits : Bytes) :
    digitsValue bound digits = min (natural digits) bound := by
  have hfold : ∀ v w, v = min w bound →
      digits.foldl (addDigit bound) v =
        min (digits.foldl (fun v b => 10 * v + (b.toNat - 48)) w) bound := by
    induction digits with
    | nil => exact fun v w h => h
    | cons b digits ih =>
      intro v w h
      refine ih _ (10 * w + (b.toNat - 48)) ?_
      rw [addDigit, h]
      omega
  exact hfold 0 0 (by omega)

theorem literal_eq_saturated (value : ℕ) : literal value = saturated value := by
  have hmax : Int64.maxValue.toInt = (maxConstant : Int) := rfl
  rw [literal, saturated, hmax, ← Int64.ofInt_eq_ofNat]
  congr 1
  omega

theorem literal_digitsValue (digits : Bytes) :
    literal (digitsValue maxConstant digits) = saturated (natural digits) := by
  rw [← literal_eq_saturated, digitsValue_eq_min, literal, literal, Nat.min_assoc, Nat.min_self]

namespace Derivation

variable {s : Symbol}

/-- How many operators stand on the left of the last one of a chain, and that one itself. -/
def spine {s : Symbol} : Derivation s → ℕ
  | join left _ _ _ => left.spine + 1
  | _ => 0

theorem spine_le_applications (d : Derivation s) : d.spine ≤ d.applications := by
  induction d with
  | join left op h right ihl _ =>
    rw [spine, applications]
    omega
  | _ => exact Nat.zero_le _

def reading (d : Derivation s) (rest : List Token) : Reading := ⟨d.tree, d.applications, rest⟩

/-- A result where the derivation is within the limits, and nothing where it is over one. -/
def Outcome (d : Derivation s) (depth : ℕ) (read result : Option Reading) : Prop :=
  (d.nesting ≤ depth ∧ read = result) ∨
    ((depth < d.nesting ∨ maxNodes < d.applications) ∧ read = none)

/-- Reading the tokens of a derivation: an operand of a level is read as the start of a chain of
operators of that level, whatever this chain may go on with. -/
def Reads (depth : ℕ) : {s : Symbol} → Derivation s → Prop
  | .whole, d => ∀ ts rest, d.Spelled ts → Unjoined Operator.levels rest →
      (∀ after, rest ≠ .question :: after) →
        d.Outcome depth (nested depth (ts ++ rest)) (some (d.reading rest))
  | .operand 0, d => ∀ ts rest, d.Spelled ts →
      d.Outcome depth (tier (nested depth) 0 (ts ++ rest)) (some (d.reading rest))
  | .operand (k + 1), d => ∀ ts rest, d.Spelled ts → Unjoined k rest →
      (d.spine ≤ maxNodes → d.Outcome depth (tier (nested depth) (k + 1) (ts ++ rest))
        (extend k (tier (nested depth) k) (maxNodes - d.spine) (d.reading rest))) ∧
      (maxNodes < d.spine → tier (nested depth) (k + 1) (ts ++ rest) = none)

/-- What comes after a part that is within the limits decides; a part over one decides alone. -/
theorem Outcome.bind {t : Symbol} {d : Derivation s} {e : Derivation t} {depth depth' : ℕ}
    {read result : Option Reading} {r : Reading} {f : Reading → Option Reading}
    (h : d.Outcome depth read (some r))
    (hover : depth < d.nesting ∨ maxNodes < d.applications →
      depth' < e.nesting ∨ maxNodes < e.applications)
    (hf : d.nesting ≤ depth → e.Outcome depth' (f r) result) :
    e.Outcome depth' (read.bind f) result := by
  rcases h with ⟨hn, rfl⟩ | ⟨ho, rfl⟩
  · exact hf hn
  · exact Or.inr ⟨hover ho, rfl⟩

/-- An operand is read whole where its chain does not go on. -/
theorem Reads.tier {depth k : ℕ} {d : Derivation (.operand k)} (h : d.Reads depth)
    {ts rest : List Token} (hts : d.Spelled ts) (hrest : Unjoined k rest) :
    d.Outcome depth (tier (nested depth) k (ts ++ rest)) (some (d.reading rest)) := by
  cases k with
  | zero => exact h ts rest hts
  | succ k =>
    obtain ⟨hfits, hover⟩ := h ts rest hts fun l hl => hrest l (Nat.lt_succ_of_lt hl)
    rcases Nat.lt_or_ge maxNodes d.spine with hs | hs
    · exact Or.inr ⟨Or.inr (Nat.lt_of_lt_of_le hs d.spine_le_applications), hover hs⟩
    · have ho := hfits hs
      rwa [extend_of_none (hrest k (Nat.lt_succ_self k))] at ho

theorem reads_group {depth : ℕ} {inner : Derivation .whole} (h : inner.Reads depth) :
    (group inner).Reads depth := by
  intro ts rest hts
  obtain ⟨a, ha, rfl⟩ := hts
  have hclosing : ∀ l < Operator.levels, operatorAt? l (.closing :: rest) = none :=
    fun l _ => operatorAt?_eq_none rfl l rest
  have hinner := h a (.closing :: rest) ha hclosing (fun _ => by simp)
  rw [List.cons_append, List.append_assoc]
  change (group inner).Outcome depth
    (atom (nested depth) (.opening :: (a ++ .closing :: rest))) _
  unfold atom
  dsimp only
  rcases hinner with ⟨hn, hread⟩ | ⟨ho, hread⟩
  · rw [hread]
    exact Or.inl ⟨hn, rfl⟩
  · rw [hread]
    exact Or.inr ⟨ho, rfl⟩

theorem reads_single {depth k : ℕ} {body : Derivation (.operand k)} (h : body.Reads depth) :
    (single body).Reads depth := by
  intro ts rest hts hrest
  refine ⟨fun _ => ?_, fun hs => absurd hs (Nat.not_lt_zero _)⟩
  rw [tier_succ]
  exact (h.tier hts hrest).bind id fun hn => Or.inl ⟨hn, rfl⟩

theorem reads_join {depth k : ℕ} {left : Derivation (.operand (k + 1))} {op : Operator}
    {hop : op ∈ joining (k + 1)} {right : Derivation (.operand k)} (hl : left.Reads depth)
    (hr : right.Reads depth) : (join left op hop right).Reads depth := by
  intro ts rest hts hrest
  obtain ⟨a, t, b, ha, hb, ht, rfl⟩ := hts
  have hlevel := level_eq_of_mem_joining hop
  have hnext : operatorAt? k (t :: (b ++ rest)) = some (op, b ++ rest) := by
    rw [operatorAt?_cons ht, if_pos hlevel]
  have hother : Unjoined k (t :: (b ++ rest)) := by
    intro l hlt
    rw [operatorAt?_cons ht, if_neg (by omega)]
  obtain ⟨hfits, hover⟩ := hl a (t :: (b ++ rest)) ha hother
  have hnesting : (join left op hop right).nesting = max left.nesting right.nesting := rfl
  have happlications : (join left op hop right).applications =
    left.applications + right.applications + 1 := rfl
  rw [List.append_assoc, List.cons_append]
  refine ⟨fun hs => ?_, fun hs => ?_⟩
  · have hs' : left.spine + 1 ≤ maxNodes := hs
    have hbudget : maxNodes - left.spine = maxNodes - (left.spine + 1) + 1 := by omega
    rcases hfits (by omega) with ⟨hn, hread⟩ | ⟨ho, hread⟩
    · rw [hread, hbudget, extend_succ hnext]
      refine (hr.tier hb hrest).bind ?_ fun hn' => Or.inl ⟨?_, rfl⟩
      · rw [hnesting, happlications]
        omega
      · rw [hnesting]
        omega
    · refine Or.inr ⟨?_, hread⟩
      rw [hnesting, happlications]
      omega
  · have hs' : maxNodes < left.spine + 1 := hs
    rcases Nat.lt_or_ge maxNodes left.spine with hlt | hge
    · exact hover hlt
    · rcases hfits hge with ⟨-, hread⟩ | ⟨-, hread⟩
      · rw [hread, Nat.sub_eq_zero_of_le (by omega)]
        exact extend_zero hnext _
      · exact hread

theorem reads_plain {depth : ℕ} {body : Derivation (.operand 5)}
    (h : ∀ depth, body.Reads depth) : (plain body).Reads depth := by
  intro ts rest hts hrest hquestion
  have hnesting : (plain body).nesting = body.nesting + 1 := rfl
  cases depth with
  | zero => exact Or.inr ⟨Or.inl (Nat.succ_pos _), rfl⟩
  | succ depth =>
    refine ((h depth).tier hts hrest).bind ?_ fun hn => Or.inl ⟨Nat.succ_le_succ hn, ?_⟩
    · rw [hnesting]
      exact Or.imp_left Nat.succ_lt_succ
    · dsimp only [reading]
      split
      · exact absurd rfl (hquestion _)
      · rfl

theorem reads_conditional {depth : ℕ} {test : Derivation (.operand 5)}
    {yes no : Derivation .whole} (ht : ∀ depth, test.Reads depth)
    (hy : ∀ depth, yes.Reads depth) (hn : ∀ depth, no.Reads depth) :
    (conditional test yes no).Reads depth := by
  intro ts rest hts hrest hquestion
  obtain ⟨a, b, c, ha, hb, hc, rfl⟩ := hts
  have hnesting : (conditional test yes no).nesting =
    max test.nesting (max yes.nesting no.nesting) + 1 := rfl
  have happlications : (conditional test yes no).applications =
    test.applications + yes.applications + no.applications + 1 := rfl
  have hunjoined : ∀ {t : Token} (after : List Token), t.operator? = none →
      Unjoined Operator.levels (t :: after) := fun after h l _ => operatorAt?_eq_none h l after
  rw [List.append_assoc, List.cons_append, List.append_assoc, List.cons_append]
  cases depth with
  | zero => exact Or.inr ⟨Or.inl (Nat.succ_pos _), rfl⟩
  | succ depth =>
    have hquestioned : Unjoined 5 (.question :: (b ++ .colon :: (c ++ rest))) := hunjoined _ rfl
    have htest := (ht depth).tier ha hquestioned
    have hyes := hy depth b (.colon :: (c ++ rest)) hb (hunjoined _ rfl) (fun _ => by simp)
    have hno := hn depth c rest hc hrest hquestion
    refine htest.bind ?_ fun h1 => hyes.bind ?_ fun h2 => hno.bind ?_ fun h3 => Or.inl ⟨?_, rfl⟩
    all_goals rw [hnesting]
    all_goals try rw [happlications]
    all_goals omega

theorem reads (d : Derivation s) (depth : ℕ) : d.Reads depth := by
  induction d generalizing depth with
  | number digits h =>
    intro ts rest hts
    obtain rfl : ts = _ := hts
    refine Or.inl ⟨Nat.zero_le _, ?_⟩
    rw [reading, tree, ← literal_digitsValue]
    rfl
  | negative digits h =>
    intro ts rest hts
    obtain rfl : ts = _ := hts
    refine Or.inl ⟨Nat.zero_le _, ?_⟩
    rw [reading, tree, ← literal_digitsValue]
    rfl
  | count =>
    intro ts rest hts
    obtain rfl : ts = _ := hts
    exact Or.inl ⟨Nat.zero_le _, rfl⟩
  | group inner ih => exact reads_group (ih depth)
  | single body ih => exact reads_single (ih depth)
  | join left op h right ihl ihr => exact reads_join (ihl depth) (ihr depth)
  | plain body ih => exact reads_plain ih
  | conditional test yes no iht ihy ihn => exact reads_conditional iht ihy ihn

/-- The tokens of a derivation are read as its tree when it is within both limits. -/
theorem ofTokens?_of_spelled (d : Derivation .whole) {ts : List Token} (h : d.Spelled ts) :
    Expr.ofTokens? ts =
      if d.nesting ≤ maxDepth ∧ d.applications ≤ maxNodes then some d.tree else none := by
  have houtcome := d.reads maxDepth ts [] h (fun _ _ => rfl) (fun _ => by simp)
  rw [List.append_nil] at houtcome
  rw [Expr.ofTokens?]
  rcases houtcome with ⟨hn, hread⟩ | ⟨ho, hread⟩
  · rw [hread]
    by_cases ha : d.applications ≤ maxNodes <;> simp [reading, hn, ha]
  · rw [hread, if_neg (by omega)]
    rfl

end Derivation

/-- A derivation of the grammar, laid out with any blanks and ended in any way, is read as its tree
if it has at most 64 nested expressions and at most 1024 operators and conditions, and is refused
otherwise. -/
theorem ofBytes?_layout (d : Derivation .whole) {text tail : Bytes}
    (hl : Layout d.lexemes text) (ht : Ended tail) :
    Expr.ofBytes? (text ++ tail) =
      if d.nesting ≤ 64 ∧ d.applications ≤ 1024 then some d.tree else none := by
  obtain ⟨ts, hts, hscan⟩ := d.exists_scan hl ht
  rw [Expr.ofBytes?, hscan, d.ofTokens?_of_spelled hts]
  rfl

/-- The derivation of `n - 1 ? -5 : n`. -/
def Derivation.sample : Derivation .whole :=
  .conditional
    ((join (count.raise (by decide)) .subtract (by decide)
      ((number [49] (by decide)).raise (by decide) : Derivation (.operand 1))).raise (by decide))
    (.plain (negative [53] (by decide)).loose) (.plain count.loose)

theorem ofBytes?_layout_sample :
    (Layout Derivation.sample.lexemes [110, 45, 49, 63, 32, 45, 53, 9, 58, 110, 32] ∧
      Ended [59, 41, 40]) ∧
    Expr.ofBytes? ([110, 45, 49, 63, 32, 45, 53, 9, 58, 110, 32] ++ [59, 41, 40]) =
      some (.conditional (.binary .subtract .count (.constant 1)) (.constant (-5)) .count) := by
  have hl : Layout Derivation.sample.lexemes [110, 45, 49, 63, 32, 45, 53, 9, 58, 110, 32] :=
    ⟨[], _, by decide, rfl, [], _, by decide, rfl, [], _, by decide, rfl, [], _, by decide, rfl,
      [32], _, by decide, rfl, [9], _, by decide, rfl, [], _, by decide, rfl,
      (by decide : Blanks [32])⟩
  have ht : Ended [59, 41, 40] := Or.inr ⟨59, _, rfl, by decide⟩
  exact ⟨⟨hl, ht⟩, (ofBytes?_layout Derivation.sample hl ht).trans (if_pos (by decide))⟩

end MessageCatalog.Plural
