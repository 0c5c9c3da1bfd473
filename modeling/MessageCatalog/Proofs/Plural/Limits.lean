import MessageCatalog.Proofs.Plural.Isolation

/-!
Every text is read to an end within its bounds. On the way to any leaf of what is read, fewer
branches of conditions are entered than may be nested.
-/
namespace MessageCatalog.Plural

open StateTransition

namespace Expr

/-- For every leaf, how many steps on the way to it enter a branch of a condition. -/
def turns : Expr → List ℕ
  | constant _ | count => [0]
  | binary _ left right => left.turns ++ right.turns
  | conditional test yes no => test.turns ++ (yes.turns ++ no.turns).map (· + 1)

/-- On the way to every leaf fewer branches are entered. -/
def TurnsBelow (bound : ℕ) (e : Expr) : Prop := ∀ k ∈ e.turns, k < bound

variable {bound : ℕ} {left right test yes no : Expr}

theorem turnsBelow_constant (v : Int64) : (constant v).TurnsBelow (bound + 1) := by
  simp [TurnsBelow, turns]

theorem turnsBelow_count : count.TurnsBelow (bound + 1) := by
  simp [TurnsBelow, turns]

theorem TurnsBelow.binary (hl : left.TurnsBelow bound) (hr : right.TurnsBelow bound)
    (op : Operator) : (binary op left right).TurnsBelow bound := by
  intro k hk
  rcases List.mem_append.mp hk with hk | hk
  · exact hl k hk
  · exact hr k hk

theorem TurnsBelow.conditional (ht : test.TurnsBelow (bound + 1)) (hy : yes.TurnsBelow bound)
    (hn : no.TurnsBelow bound) : (conditional test yes no).TurnsBelow (bound + 1) := by
  intro k hk
  rcases List.mem_append.mp hk with hk | hk
  · exact ht k hk
  · obtain ⟨j, hj, rfl⟩ := List.mem_map.mp hk
    apply Nat.succ_lt_succ
    rcases List.mem_append.mp hj with hj | hj
    · exact hy j hj
    · exact hn j hj

end Expr

/-- Whatever it reads stays below the bound. -/
def Turning (bound : ℕ) (read : Reader) : Prop :=
  ∀ ts r, read ts = some r → r.expr.TurnsBelow bound

section Readers

variable {bound : ℕ} {group branch : Reader}

theorem turning_atom (hg : Turning (bound + 1) group) : Turning (bound + 1) (atom group) := by
  intro ts r h
  unfold atom at h
  split at h
  · -- a group, closed or not
    obtain ⟨inner, hinner, rfl⟩ := Option.map_eq_some_iff.mp h
    have hb := hg _ _ hinner
    split
    · exact hb
    · exact Expr.turnsBelow_constant _
  · obtain rfl := Option.some.inj h
    exact Expr.turnsBelow_count
  all_goals
    obtain rfl := Option.some.inj h
    exact Expr.turnsBelow_constant _

theorem turning_tier (hg : Turning (bound + 1) group) (k : ℕ) :
    Turning (bound + 1) (tier group k) :=
  of_tier (fun op _ _ hl hr => hl.binary hr op) (turning_atom hg) k

theorem turning_conditional (hb : Turning bound branch) :
    Turning (bound + 1) (conditional branch) := by
  intro ts r h
  -- What is read of a group of the test enters no more branches than a branch does.
  have hgroup : Turning (bound + 1) branch := fun ts r h k hk => Nat.lt_succ_of_lt (hb ts r h k hk)
  rw [conditional_eq] at h
  obtain ⟨test, htest, h⟩ := Option.bind_eq_some_iff.mp h
  have ht := turning_tier hgroup _ _ _ htest
  unfold afterTest at h
  split at h
  · obtain ⟨yes, hyes, h⟩ := Option.bind_eq_some_iff.mp h
    have hy := hb _ _ hyes
    unfold afterYes at h
    split at h
    · obtain ⟨no, hno, h⟩ := Option.bind_eq_some_iff.mp h
      have hn := hb _ _ hno
      obtain rfl := Option.some.inj h
      exact ht.conditional hy hn
    · obtain rfl := Option.some.inj h
      exact ht
  · obtain rfl := Option.some.inj h
    exact ht

theorem turning_nested (levels : ℕ) : Turning levels (nested levels) := by
  induction levels with
  | zero =>
    intro ts r h
    cases h
  | succ levels ih => exact turning_conditional ih

end Readers

theorem Expr.turnsBelow_ofBytes? {s : Bytes} {e : Expr} (h : ofBytes? s = some e) :
    e.TurnsBelow maxDepth := by
  unfold ofBytes? ofTokens? at h
  obtain ⟨r, hr, h⟩ := Option.bind_eq_some_iff.mp h
  split at h
  · obtain rfl := Option.some.inj h
    exact turning_nested _ _ _ hr
  · cases h

namespace Machine

/-- A text is always read to an end: the machine stops, its cursor goes forward only and stays
within the text, and what it comes to has no more operators and conditions than are counted, enters
fewer branches than may be nested, and holds no constant that digits cannot spell. -/
theorem runs_within_limits (s : Bytes) :
    (∃ last, last ∈ eval (step s) start ∧ last.verdict s = Expr.ofBytes? s) ∧
    (∀ st st', Reaches (step s) start st → Reaches (step s) st st' →
      st.position ≤ st'.position ∧ st'.position ≤ s.length) ∧
    ∀ e, Expr.ofBytes? s = some e → e.nodes ≤ 1024 ∧ (∀ k ∈ e.turns, k ≤ 63) ∧
      ∀ v ∈ e.constants, -(2 ^ 63 - 1) ≤ v.toInt ∧ v.toInt ≤ 2 ^ 63 - 1 := by
  refine ⟨exists_verdict_eq_ofBytes? s, fun st st' hst hst' => ⟨?_, ?_⟩, fun e he => ?_⟩
  · exact position_le_of_reaches hst'
  · exact position_le_length (hst.trans hst') (Nat.zero_le _)
  · obtain ⟨hnodes, hspellable⟩ := Expr.ofBytes?_eq_some he
    refine ⟨hnodes, fun k hk => ?_, fun v hv => ⟨hspellable v hv, Int64.toInt_le v⟩⟩
    exact Nat.le_of_lt_succ (Expr.turnsBelow_ofBytes? he k hk)

/-- A constant with too many digits, in the second branch of a condition. -/
theorem runs_within_limits_conditional :
    let s := ascii "n > 1 ? 2 : -9999999999999999999;".toList
    let e := Expr.conditional (.binary .greater .count (.constant 1)) (.constant 2)
      (.constant (-9223372036854775807))
    (Expr.ofBytes? s = some e ∧ e.nodes ≤ 1024 ∧ (∀ k ∈ e.turns, k ≤ 63) ∧
      ∀ v ∈ e.constants, -(2 ^ 63 - 1) ≤ v.toInt ∧ v.toInt ≤ 2 ^ 63 - 1) ∧
    ∃ st, step s start = some st ∧ start.position ≤ st.position ∧ st.position ≤ s.length := by
  intro s e
  have hread : Expr.ofBytes? s = some e := by decide +kernel
  obtain ⟨-, hcursor, hlimits⟩ := runs_within_limits s
  exact ⟨⟨hread, hlimits e hread⟩, _, rfl, hcursor start _ .refl (.single rfl)⟩

end Machine

end MessageCatalog.Plural
