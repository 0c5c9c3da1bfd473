import MessageCatalog.Proofs.Plural.Bounds

/-!
What a reader comes to after its first part was read, by the token that follows: a group that is
closed or not, a chain that goes on, a condition with its branches. No count of operators goes back.
-/
namespace MessageCatalog.Plural

/-- A group that was read, or zero where it is not closed. -/
def closed (inner : Reading) : Reading :=
  match inner.rest with
  | .closing :: rest => { inner with rest }
  | rest => ⟨.constant 0, inner.nodes, rest⟩

theorem closed_of_closing {inner : Reading} {rest : List Token}
    (h : inner.rest = .closing :: rest) : closed inner = ⟨inner.expr, inner.nodes, rest⟩ := by
  simp [closed, h]

theorem closed_of_ne {inner : Reading} (h : ∀ rest, inner.rest ≠ .closing :: rest) :
    closed inner = ⟨.constant 0, inner.nodes, inner.rest⟩ := by
  unfold closed
  split
  · rename_i rest hrest
    exact absurd hrest (h rest)
  · rfl

theorem nodes_closed (inner : Reading) : (closed inner).nodes = inner.nodes := by
  unfold closed
  split <;> rfl

theorem atom_opening (group : Reader) (ts : List Token) :
    atom group (.opening :: ts) = (group ts).bind fun inner => some (closed inner) :=
  Option.map_eq_bind

theorem atom_eq_missing {group : Reader} {ts : List Token} (hopening : ∀ us, ts ≠ .opening :: us)
    (hcount : ∀ us, ts ≠ .count :: us) (hnumber : ∀ value us, ts ≠ .number value :: us)
    (hminus : ∀ us, ts ≠ .minus true :: us) : atom group ts = some ⟨.constant 0, 0, ts⟩ := by
  unfold atom
  split
  · exact absurd rfl (hopening _)
  · exact absurd rfl (hcount _)
  · exact absurd rfl (hnumber _ _)
  · exact absurd rfl (hminus _)
  · rfl

theorem nodes_le_of_extend {level budget : ℕ} {operand : Reader} {left r : Reading}
    (h : extend level operand budget left = some r) : left.nodes ≤ r.nodes := by
  induction budget using Nat.strongRecOn generalizing left with
  | ind budget ih =>
    obtain ⟨-, rfl⟩ | ⟨op, rest, right, k, hk, -, -, h⟩ := extend_eq_some h
    · exact Nat.le_refl _
    · have hle := ih k hk h
      dsimp only at hle
      omega

def afterYes (branch : Reader) (test yes : Reading) : Option Reading :=
  match yes.rest with
  | .colon :: rest => (branch rest).bind fun no =>
      some ⟨.conditional test.expr yes.expr no.expr, test.nodes + yes.nodes + no.nodes + 1, no.rest⟩
  | rest => some ⟨test.expr, test.nodes + yes.nodes, rest⟩

def afterTest (branch : Reader) (test : Reading) : Option Reading :=
  match test.rest with
  | .question :: rest => (branch rest).bind (afterYes branch test)
  | _ => some test

theorem conditional_eq (branch : Reader) (ts : List Token) :
    conditional branch ts = (tier branch Operator.levels ts).bind (afterTest branch) :=
  rfl

theorem afterYes_of_colon {branch : Reader} {test yes : Reading} {rest : List Token}
    (h : yes.rest = .colon :: rest) : afterYes branch test yes = (branch rest).bind fun no =>
      some ⟨.conditional test.expr yes.expr no.expr, test.nodes + yes.nodes + no.nodes + 1,
        no.rest⟩ := by
  simp [afterYes, h]

theorem afterYes_of_ne {branch : Reader} {test yes : Reading}
    (h : ∀ rest, yes.rest ≠ .colon :: rest) :
    afterYes branch test yes = some ⟨test.expr, test.nodes + yes.nodes, yes.rest⟩ := by
  unfold afterYes
  split
  · rename_i rest hrest
    exact absurd hrest (h rest)
  · rfl

theorem afterTest_of_question {branch : Reader} {test : Reading} {rest : List Token}
    (h : test.rest = .question :: rest) :
    afterTest branch test = (branch rest).bind (afterYes branch test) := by
  simp [afterTest, h]

theorem afterTest_of_ne {branch : Reader} {test : Reading}
    (h : ∀ rest, test.rest ≠ .question :: rest) : afterTest branch test = some test := by
  unfold afterTest
  split
  · rename_i rest hrest
    exact absurd hrest (h rest)
  · rfl

theorem nodes_le_of_afterYes {branch : Reader} {test yes r : Reading}
    (h : afterYes branch test yes = some r) : test.nodes + yes.nodes ≤ r.nodes := by
  unfold afterYes at h
  split at h
  · obtain ⟨no, -, h⟩ := Option.bind_eq_some_iff.mp h
    obtain rfl := Option.some.inj h
    dsimp only
    omega
  · obtain rfl := Option.some.inj h
    exact Nat.le_refl _

theorem nodes_le_of_afterTest {branch : Reader} {test r : Reading}
    (h : afterTest branch test = some r) : test.nodes ≤ r.nodes := by
  unfold afterTest at h
  split at h
  · obtain ⟨yes, -, h⟩ := Option.bind_eq_some_iff.mp h
    exact Nat.le_of_add_right_le (nodes_le_of_afterYes h)
  · obtain rfl := Option.some.inj h
    exact Nat.le_refl _

end MessageCatalog.Plural
