import MessageCatalog.Proofs.Plural.Lookahead
import MessageCatalog.Proofs.Plural.Stages

/-!
The machine reads what is read from the tokens. Where its cursor stands between two tokens, it comes
to the same expression, counts the same operators, and leaves the same tokens ahead; it is exhausted
where the tokens nest too deep or make too many operators.
-/
namespace MessageCatalog.Plural

open StateTransition

namespace Machine

/-- The machine comes to what was read: the expression, the operators on top of those there were
before, and the same tokens ahead. It is exhausted instead where nothing was read within the
limit. -/
def Answers (s : Bytes) (st : State) (frames : List Frame) (depth before : ℕ)
    (read : Option Reading) : Prop :=
  (∃ r position, read = some r ∧ before + r.nodes ≤ maxNodes ∧ tokens (s.drop position) = r.rest ∧
    Reaches (step s) st ⟨position, .done r.expr, frames, depth, before + r.nodes, false⟩) ∨
  ((∀ r, read = some r → maxNodes < before + r.nodes) ∧
    ∃ last, Reaches (step s) st last ∧ last.control.exhausted = true)

/-- Wherever the machine starts a task, it comes to what is read from the tokens ahead. -/
def Serves (s : Bytes) (depth : ℕ) (task : Task) (read : Reader) : Prop :=
  ∀ frames position nodes, nodes ≤ maxNodes →
    Answers s ⟨position, task, frames, depth, nodes, false⟩ frames depth nodes
      (read (tokens (s.drop position)))

section Steps

variable {s : Bytes} {st st' : State} {c c' : Control} {position taken depth before nodes : ℕ}
  {frames : List Frame} {read : Option Reading} {e : Expr}

theorem reaches_of_act (h : c.act (s.drop position) = some (taken, c')) :
    Reaches (step s) ⟨position, c⟩ ⟨position + taken, c'⟩ := by
  apply Relation.ReflTransGen.single
  simp [step, h]

theorem Answers.of_reaches (h : Reaches (step s) st st')
    (ha : Answers s st' frames depth before read) : Answers s st frames depth before read := by
  rcases ha with ⟨r, position, hr, hle, hrest, hreach⟩ | ⟨hover, last, hreach, hx⟩
  · exact Or.inl ⟨r, position, hr, hle, hrest, h.trans hreach⟩
  · exact Or.inr ⟨hover, last, h.trans hreach, hx⟩

theorem answers_exhausted (h : Reaches (step s) st st') (hx : st'.control.exhausted = true)
    (hover : ∀ r, read = some r → maxNodes < before + r.nodes) :
    Answers s st frames depth before read :=
  Or.inr ⟨hover, st', h, hx⟩

/-- Blanks are passed over, and the tokens ahead are the same. -/
theorem exists_reaches_blanks (s : Bytes) (position : ℕ) (hc : c.skips = true) :
    ∃ position', Reaches (step s) ⟨position, c⟩ ⟨position', c⟩ ∧
      startsWithBlank (s.drop position') = false ∧
      tokens (s.drop position') = tokens (s.drop position) := by
  induction hn : s.length - position generalizing position with
  | zero =>
    have hnil : s.drop position = [] := List.drop_eq_nil_of_le (by omega)
    exact ⟨position, .refl, by rw [hnil]; rfl, rfl⟩
  | succ n ih =>
    cases hb : startsWithBlank (s.drop position) with
    | false => exact ⟨position, .refl, hb, rfl⟩
    | true =>
      have hact : c.act (s.drop position) = some (1, c) := by simp [Control.act, hc, hb]
      obtain ⟨position', hreach, hstop, htokens⟩ := ih (position + 1) (by omega)
      have hsame : tokens (s.drop (position + 1)) = tokens (s.drop position) := by
        rw [← List.drop_drop]
        exact tokens_drop_blank hb
      exact ⟨position', (reaches_of_act hact).trans hreach, hstop, htokens.trans hsame⟩

/-- Behind the blanks where a mark may stand it is ahead, or no first token is this mark. -/
theorem exists_reaches_mark {ch : Char} {t : Token} (hm : Mark ch t) (s : Bytes) (position : ℕ)
    (hc : c.skips = true) :
    ∃ p, Reaches (step s) ⟨position, c⟩ ⟨p, c⟩ ∧ startsWithBlank (s.drop p) = false ∧
      ((ascii [ch]).isPrefixOf (s.drop p) = true ∧
          tokens (s.drop position) = t :: tokens (s.drop (p + 1)) ∨
        (ascii [ch]).isPrefixOf (s.drop p) = false ∧
          tokens (s.drop p) = tokens (s.drop position) ∧
          ∀ ts, tokens (s.drop position) ≠ t :: ts) := by
  obtain ⟨p, hreach, hb, htokens⟩ := exists_reaches_blanks s position hc
  refine ⟨p, hreach, hb, ?_⟩
  rcases hm.starts_or_not hb with ⟨hstarts, hhead⟩ | ⟨hstarts, hhead⟩
  · rw [List.drop_drop, htokens] at hhead
    exact Or.inl ⟨hstarts, hhead⟩
  · rw [htokens] at hhead
    exact Or.inr ⟨hstarts, htokens, hhead⟩

theorem digit_of_isDigit {b : UInt8} (hb : isDigit b = true) (negative : Bool) (value : ℕ)
    (ahead : Bytes) : c.digit negative value (b :: ahead) =
      (1, { c with task := .digits negative (addDigit maxConstant value b) }) := by
  simp [Control.digit, Option.filter, hb]

theorem digit_of_not {ahead : Bytes} (h : startsWithDigit ahead = false) (negative : Bool)
    (value : ℕ) : c.digit negative value ahead =
      (0, c.give (.constant (signed negative value)) c.frames) := by
  cases ahead with
  | nil => rfl
  | cons b ahead =>
    have hb : isDigit b = false := h
    simp [Control.digit, Option.filter, hb]

theorem act_digits (negative : Bool) (value : ℕ) (ahead : Bytes) :
    Control.act ⟨.digits negative value, frames, depth, nodes, false⟩ ahead =
      some (Control.digit ⟨.digits negative value, frames, depth, nodes, false⟩ negative value
        ahead) :=
  rfl

theorem reaches_digits {digits rest : Bytes} (hd : ∀ b ∈ digits, isDigit b)
    (hrest : startsWithDigit rest = false) (negative : Bool) (value : ℕ)
    (h : s.drop position = digits ++ rest) :
    Reaches (step s) ⟨position, .digits negative value, frames, depth, nodes, false⟩
      ⟨position + digits.length,
        .done (.constant (signed negative (digits.foldl (addDigit maxConstant) value))),
        frames, depth, nodes, false⟩ := by
  induction digits generalizing position value with
  | nil =>
    apply reaches_of_act
    rw [act_digits, h, List.nil_append, digit_of_not hrest]
    rfl
  | cons b digits ih =>
    have hact : Control.act ⟨.digits negative value, frames, depth, nodes, false⟩
        (s.drop position) = some
          (1, ⟨.digits negative (addDigit maxConstant value b), frames, depth, nodes, false⟩) := by
      rw [act_digits, h, List.cons_append, digit_of_isDigit (hd b List.mem_cons_self)]
    have hdrop : s.drop (position + 1) = digits ++ rest := by
      rw [← List.drop_drop, h]
      rfl
    have hreach := ih (fun b hb => hd b (List.mem_cons_of_mem _ hb))
      (addDigit maxConstant value b) hdrop
    rw [Nat.add_assoc, Nat.add_comm 1] at hreach
    exact (reaches_of_act hact).trans hreach

theorem answers_some {r : Reading} (hle : before + r.nodes ≤ maxNodes)
    (hrest : tokens (s.drop position) = r.rest)
    (h : Reaches (step s) st ⟨position, .done r.expr, frames, depth, before + r.nodes, false⟩) :
    Answers s st frames depth before (some r) :=
  Or.inl ⟨r, position, rfl, hle, hrest, h⟩

/-- What is read first decides alone where it exhausts the machine. -/
theorem Answers.bind {frames' : List Frame} {depth' before' : ℕ} {f : Reading → Option Reading}
    (h : Answers s st frames' depth' before' read)
    (hmono : ∀ r r', f r = some r' → before' + r.nodes ≤ before + r'.nodes)
    (hf : ∀ r position, before' + r.nodes ≤ maxNodes → tokens (s.drop position) = r.rest →
      Answers s ⟨position, .done r.expr, frames', depth', before' + r.nodes, false⟩
        frames depth before (f r)) :
    Answers s st frames depth before (read.bind f) := by
  rcases h with ⟨r, position, hr, hle, hrest, hreach⟩ | ⟨hover, last, hreach, hx⟩
  · have hnext := (hf r position hle hrest).of_reaches hreach
    rwa [hr]
  · refine answers_exhausted hreach hx fun r' hr' => ?_
    obtain ⟨r, hr, hfr⟩ := Option.bind_eq_some_iff.mp hr'
    have hle := hmono r r' hfr
    have hlt := hover r hr
    omega

end Steps

section Tasks

variable {s ahead : Bytes} {depth before nodes position : ℕ} {frames : List Frame} {e : Expr}

theorem act_operand (frames : List Frame) (depth nodes : ℕ) (hb : startsWithBlank ahead = false) :
    Control.act ⟨.operand 0, frames, depth, nodes, false⟩ ahead =
      some (Control.atom ⟨.operand 0, frames, depth, nodes, false⟩ ahead) := by
  simp [Control.act, hb]

theorem act_done (e : Expr) (frame : Frame) (frames : List Frame) (depth nodes : ℕ)
    (hb : startsWithBlank ahead = false) :
    Control.act ⟨.done e, frame :: frames, depth, nodes, false⟩ ahead =
      some (Control.resume ⟨.done e, frame :: frames, depth, nodes, false⟩ ahead e frames
        frame) := by
  simp [Control.act, hb]

theorem answers_closing {inner : Reading} (hle : before + inner.nodes ≤ maxNodes)
    (hrest : tokens (s.drop position) = inner.rest) :
    Answers s ⟨position, .done inner.expr, .group :: frames, depth, before + inner.nodes, false⟩
      frames depth before (some (closed inner)) := by
  obtain ⟨p, hreach, hb, hmark⟩ := exists_reaches_mark mark_closing s position
    (c := ⟨.done inner.expr, .group :: frames, depth, before + inner.nodes, false⟩) rfl
  apply Answers.of_reaches hreach
  have hact := act_done inner.expr .group frames depth (before + inner.nodes) hb
  rw [hrest] at hmark
  rcases hmark with ⟨hstarts, hclosing⟩ | ⟨hstarts, htokens, hclosing⟩
  · simp only [Control.resume, hstarts, if_true, Control.give] at hact
    rw [closed_of_closing hclosing]
    exact answers_some hle rfl (reaches_of_act hact)
  · simp only [Control.resume, hstarts, Bool.false_eq_true, if_false, Control.give] at hact
    rw [closed_of_ne hclosing]
    exact answers_some hle htokens (reaches_of_act hact)

theorem answers_digits (frames : List Frame) (depth : ℕ) (hnodes : nodes ≤ maxNodes)
    (h : startsWithDigit (s.drop position) = true) (negative : Bool) :
    ∃ value rest, tokens (s.drop position) = .number value :: rest ∧
      Answers s ⟨position, .digits negative 0, frames, depth, nodes, false⟩ frames depth nodes
        (some ⟨.constant (signed negative value), 0, rest⟩) := by
  obtain ⟨digits, rest, hsplit, hnumeral, hrest, htokens⟩ := exists_numeral_ahead h
  have hafter : s.drop (position + digits.length) = rest := by
    rw [← List.drop_drop, hsplit, List.drop_left]
  exact ⟨_, _, htokens, answers_some hnodes (congrArg tokens hafter)
    (reaches_digits hnumeral.2 hrest negative 0 hsplit)⟩

/-- An operand without operators, at the byte it starts with. -/
theorem answers_operand {group : Reader} (hg : Serves s depth .whole group) (frames : List Frame)
    (hnodes : nodes ≤ maxNodes) (hb : startsWithBlank (s.drop position) = false) :
    Answers s ⟨position, .operand 0, frames, depth, nodes, false⟩ frames depth nodes
      (atom group (tokens (s.drop position))) := by
  have hact := act_operand frames depth nodes hb
  have hdrop : s.drop (position + 1) = (s.drop position).drop 1 := List.drop_drop.symm
  unfold Control.atom at hact
  rcases mark_opening.starts_or_not hb with ⟨hstarts, hhead⟩ | ⟨hstarts, hnopening⟩
  · rw [if_pos hstarts] at hact
    rw [hhead, atom_opening, ← hdrop]
    apply Answers.of_reaches (reaches_of_act hact)
    have hinner := hg (.group :: frames) (position + 1) nodes hnodes
    refine hinner.bind ?_ fun _ _ => answers_closing
    intro inner r hr
    rw [← Option.some.inj hr, nodes_closed]
  rw [if_neg (ne_true_of_eq_false hstarts)] at hact
  rcases mark_count.starts_or_not hb with ⟨hstarts, hhead⟩ | ⟨hstarts, hncount⟩
  · rw [if_pos hstarts] at hact
    rw [hhead, ← hdrop]
    exact answers_some hnodes rfl (reaches_of_act hact)
  rw [if_neg (ne_true_of_eq_false hstarts)] at hact
  cases hdigit : startsWithDigit (s.drop position) with
  | true =>
    rw [if_pos hdigit] at hact
    obtain ⟨value, rest, hhead, hanswers⟩ := answers_digits frames depth hnodes hdigit false
    rw [hhead]
    exact hanswers.of_reaches (reaches_of_act hact)
  | false =>
    rw [if_neg (ne_true_of_eq_false hdigit)] at hact
    rcases negative_starts_or_not hb with ⟨hstarts, hhead⟩ | ⟨hstarts, hnminus⟩
    · rw [if_pos hstarts] at hact
      rw [Bool.and_eq_true, ← hdrop] at hstarts
      obtain ⟨value, rest, hnumber, hanswers⟩ := answers_digits frames depth hnodes hstarts.2 true
      rw [hhead, ← hdrop, hnumber]
      exact hanswers.of_reaches (reaches_of_act hact)
    · rw [if_neg (ne_true_of_eq_false hstarts)] at hact
      rw [atom_eq_missing hnopening hncount (tokens_ne_number hb hdigit) hnminus]
      exact answers_some hnodes rfl (reaches_of_act hact)

theorem serves_atom {group : Reader} (hg : Serves s depth .whole group) :
    Serves s depth (.operand 0) (atom group) := by
  intro frames position nodes hnodes
  obtain ⟨p, hreach, hb, htokens⟩ := exists_reaches_blanks s position
    (c := ⟨.operand 0, frames, depth, nodes, false⟩) rfl
  apply Answers.of_reaches hreach
  rw [← htokens]
  exact answers_operand hg frames hnodes hb

theorem build_of_lt {task : Task} {frames' : List Frame} (h : nodes < maxNodes) :
    Control.build ⟨task, frames', depth, nodes, false⟩ e frames =
      ⟨.done e, frames, depth, nodes + 1, false⟩ := by
  simp [Control.build, Control.give, h]

theorem exhausted_build_of_le {c : Control} (h : maxNodes ≤ c.nodes) :
    (c.build e frames).exhausted = true := by
  simp [Control.build, Nat.not_lt.mpr h]

/-- What is made without taking bytes counts for as much as it adds. -/
theorem Answers.of_act {c c' : Control} {read : Option Reading} (total : ℕ)
    (hact : c.act (s.drop position) = some (0, c'))
    (hx : maxNodes < before + total → c'.exhausted = true)
    (hover : ∀ r, read = some r → total ≤ r.nodes)
    (hnext : before + total ≤ maxNodes → Answers s ⟨position, c'⟩ frames depth before read) :
    Answers s ⟨position, c⟩ frames depth before read := by
  have hreach := reaches_of_act hact
  rcases Nat.lt_or_ge maxNodes (before + total) with hlt | hge
  · refine answers_exhausted hreach (hx hlt) fun r hr => ?_
    have hle := hover r hr
    omega
  · exact (hnext hge).of_reaches hreach

/-- A chain goes on with an operator of its level, or it ends. -/
theorem reaches_chain (e : Expr) (level : ℕ) (frames : List Frame) (depth nodes position : ℕ) :
    (∃ op p, operatorAt? level (tokens (s.drop position)) = some (op, tokens (s.drop p)) ∧
      Reaches (step s) ⟨position, .done e, .chain level :: frames, depth, nodes, false⟩
        ⟨p, .operand level, .join level op e :: frames, depth, nodes, false⟩) ∨
    operatorAt? level (tokens (s.drop position)) = none ∧
      ∃ p, tokens (s.drop p) = tokens (s.drop position) ∧
        Reaches (step s) ⟨position, .done e, .chain level :: frames, depth, nodes, false⟩
          ⟨p, .done e, frames, depth, nodes, false⟩ := by
  obtain ⟨p, hreach, hb, htokens⟩ := exists_reaches_blanks s position
    (c := ⟨.done e, .chain level :: frames, depth, nodes, false⟩) rfl
  have hact := act_done e (.chain level) frames depth nodes hb
  have hnext := operatorAt?_tokens hb level
  rw [htokens] at hnext
  cases hop : operatorAhead? level (s.drop p) with
  | none =>
    simp only [Control.resume, hop, Control.give] at hact
    rw [hop] at hnext
    exact Or.inr ⟨hnext, p, htokens, hreach.trans (reaches_of_act hact)⟩
  | some op =>
    simp only [Control.resume, hop] at hact
    rw [hop, Option.map_some, List.drop_drop] at hnext
    exact Or.inl ⟨op, _, hnext, hreach.trans (reaches_of_act hact)⟩

theorem answers_join {operand : Reader} {level : ℕ} (ho : Serves s depth (.operand level) operand)
    (frames : List Frame) (op : Operator) {left : Reading} (more : Reading → Option Reading)
    (hle : before + left.nodes ≤ maxNodes)
    (hmono : ∀ l r, more l = some r → l.nodes ≤ r.nodes)
    (hmore : ∀ (l : Reading) position, left.nodes < l.nodes → before + l.nodes ≤ maxNodes →
      tokens (s.drop position) = l.rest →
      Answers s ⟨position, .done l.expr, .chain level :: frames, depth, before + l.nodes, false⟩
        frames depth before (more l)) :
    Answers s ⟨position, .operand level, .join level op left.expr :: frames, depth,
        before + left.nodes, false⟩ frames depth before
      ((operand (tokens (s.drop position))).bind fun right =>
        more ⟨.binary op left.expr right.expr, left.nodes + right.nodes + 1, right.rest⟩) := by
  apply (ho (.join level op left.expr :: frames) position _ hle).bind
  · intro right r hr
    have hlr := hmono _ _ hr
    dsimp only at hlr
    omega
  · intro right p hright hrest
    have hnodes : before + left.nodes + right.nodes + 1 =
        before + (left.nodes + right.nodes + 1) := by
      omega
    apply Answers.of_act (left.nodes + right.nodes + 1) rfl
    · intro hlt
      apply exhausted_build_of_le
      dsimp only
      omega
    · intro r hr
      exact hmono _ _ hr
    · intro hle'
      rw [build_of_lt (by omega), hnodes]
      apply hmore ⟨.binary op left.expr right.expr, left.nodes + right.nodes + 1, right.rest⟩ p _
        hle' hrest
      dsimp only
      omega

theorem answers_chain {operand : Reader} {level : ℕ} (ho : Serves s depth (.operand level) operand)
    (frames : List Frame) (budget : ℕ) {left : Reading}
    (hbudget : maxNodes ≤ left.nodes + budget) (hle : before + left.nodes ≤ maxNodes)
    (hrest : tokens (s.drop position) = left.rest) :
    Answers s ⟨position, .done left.expr, .chain level :: frames, depth, before + left.nodes, false⟩
      frames depth before (extend level operand budget left) := by
  induction budget using Nat.strongRecOn generalizing left position with
  | ind budget ih =>
    obtain ⟨op, p, hop, hreach⟩ | ⟨hop, p, hp, hreach⟩ :=
      reaches_chain (s := s) left.expr level frames depth (before + left.nodes) position
    · apply Answers.of_reaches hreach
      rw [hrest] at hop
      cases budget with
      | zero =>
        -- As many operators are counted as there may be, so this one exhausts the machine.
        rw [extend_zero hop, ← Option.bind_fun_none (operand (tokens (s.drop p)))]
        apply answers_join ho frames op (fun _ => none) hle
        · intro l r hr
          cases hr
        · intro l position hlt hl
          omega
      | succ budget =>
        rw [extend_succ hop]
        apply answers_join ho frames op (extend level operand budget) hle
        · intro l r hr
          exact nodes_le_of_extend hr
        · intro l position hlt hl htokens
          exact ih budget (Nat.lt_succ_self _) (by omega) hl htokens
    · rw [hrest] at hop hp
      rw [extend_of_none hop]
      exact answers_some hle hp hreach

theorem serves_tier {group : Reader} (hg : Serves s depth .whole group) (k : ℕ) :
    Serves s depth (.operand k) (tier group k) := by
  induction k with
  | zero => exact serves_atom hg
  | succ k ih =>
    intro frames position nodes hnodes
    have hact : Control.act ⟨.operand (k + 1), frames, depth, nodes, false⟩ (s.drop position) =
        some (0, ⟨.operand k, .chain k :: frames, depth, nodes, false⟩) := rfl
    rw [tier_succ]
    apply Answers.of_reaches (reaches_of_act hact)
    apply (ih (.chain k :: frames) position nodes hnodes).bind
    · intro left r hr
      exact Nat.add_le_add_left (nodes_le_of_extend hr) _
    · intro left position
      exact answers_chain ih frames maxNodes (Nat.le_add_left _ _)

section Conditions

variable {branch : Reader} {test yes : Reading}

theorem answers_afterYes (hb : Serves s (depth + 1) .whole branch) (frames : List Frame)
    (hle : before + test.nodes + yes.nodes ≤ maxNodes)
    (hrest : tokens (s.drop position) = yes.rest) :
    Answers s ⟨position, .done yes.expr, .yes test.expr :: frames, depth + 1,
        before + test.nodes + yes.nodes, false⟩ frames depth before (afterYes branch test yes) := by
  obtain ⟨p, hreach, hblank, hmark⟩ := exists_reaches_mark mark_colon s position
    (c := ⟨.done yes.expr, .yes test.expr :: frames, depth + 1, before + test.nodes + yes.nodes,
      false⟩) rfl
  apply Answers.of_reaches hreach
  have hact := act_done yes.expr (.yes test.expr) frames (depth + 1)
    (before + test.nodes + yes.nodes) hblank
  rw [hrest] at hmark
  rcases hmark with ⟨hstarts, hcolon⟩ | ⟨hstarts, htokens, hcolon⟩
  · simp only [Control.resume, hstarts, if_true] at hact
    rw [afterYes_of_colon hcolon]
    apply Answers.of_reaches (reaches_of_act hact)
    apply (hb (.no test.expr yes.expr :: frames) (p + 1) _ hle).bind
    · intro no r hr
      obtain rfl := Option.some.inj hr
      dsimp only
      omega
    · intro no p' hno hrest'
      apply Answers.of_act (test.nodes + yes.nodes + no.nodes + 1) rfl
      · intro hlt
        apply exhausted_build_of_le
        dsimp only
        omega
      · intro r hr
        rw [← Option.some.inj hr]
      · intro hle'
        have hnodes : before + test.nodes + yes.nodes + no.nodes + 1 =
            before + (test.nodes + yes.nodes + no.nodes + 1) := by omega
        rw [build_of_lt (by omega), hnodes]
        exact answers_some hle' hrest' .refl
  · simp only [Control.resume, hstarts, Bool.false_eq_true, if_false, Control.give,
      Control.leave] at hact
    have hreach' := reaches_of_act hact
    have hnodes : before + test.nodes + yes.nodes = before + (test.nodes + yes.nodes) :=
      Nat.add_assoc _ _ _
    rw [hnodes] at hle hreach' ⊢
    rw [afterYes_of_ne hcolon]
    exact answers_some hle htokens hreach'

theorem answers_afterTest (hb : Serves s (depth + 1) .whole branch) (frames : List Frame)
    (hle : before + test.nodes ≤ maxNodes) (hrest : tokens (s.drop position) = test.rest) :
    Answers s ⟨position, .done test.expr, .test :: frames, depth + 1, before + test.nodes, false⟩
      frames depth before (afterTest branch test) := by
  obtain ⟨p, hreach, hblank, hmark⟩ := exists_reaches_mark mark_question s position
    (c := ⟨.done test.expr, .test :: frames, depth + 1, before + test.nodes, false⟩) rfl
  apply Answers.of_reaches hreach
  have hact := act_done test.expr .test frames (depth + 1) (before + test.nodes) hblank
  rw [hrest] at hmark
  rcases hmark with ⟨hstarts, hquestion⟩ | ⟨hstarts, htokens, hquestion⟩
  · simp only [Control.resume, hstarts, if_true] at hact
    rw [afterTest_of_question hquestion]
    apply Answers.of_reaches (reaches_of_act hact)
    apply (hb (.yes test.expr :: frames) (p + 1) _ hle).bind
    · intro yes r hr
      have hle' := nodes_le_of_afterYes hr
      omega
    · intro yes p'
      exact answers_afterYes hb frames
  · simp only [Control.resume, hstarts, Bool.false_eq_true, if_false, Control.give,
      Control.leave] at hact
    rw [afterTest_of_ne hquestion]
    exact answers_some hle htokens (reaches_of_act hact)

theorem serves_conditional (hb : Serves s (depth + 1) .whole branch) (hd : depth < maxDepth) :
    Serves s depth .whole (conditional branch) := by
  intro frames position nodes hnodes
  have hact : Control.act ⟨.whole, frames, depth, nodes, false⟩ (s.drop position) =
      some (0, ⟨.operand Operator.levels, .test :: frames, depth + 1, nodes, false⟩) := by
    simp [Control.act, Control.skips, Control.enter, hd]
  rw [conditional_eq]
  apply Answers.of_reaches (reaches_of_act hact)
  apply (serves_tier hb Operator.levels (.test :: frames) position nodes hnodes).bind
  · intro test r hr
    exact Nat.add_le_add_left (nodes_le_of_afterTest hr) _
  · intro test p
    exact answers_afterTest hb frames

end Conditions

/-- The levels of nesting that are left are those that may be read. -/
theorem serves_nested (levels : ℕ) (hd : depth + levels = maxDepth) :
    Serves s depth .whole (nested levels) := by
  induction levels generalizing depth with
  | zero =>
    -- The machine is as deep as it may be, and takes nothing more.
    intro frames position nodes _
    have hact : Control.act ⟨.whole, frames, depth, nodes, false⟩ (s.drop position) =
        some (0, ⟨.done (.constant 0), frames, depth, nodes, true⟩) := by
      have hnot : ¬depth < maxDepth := by omega
      simp [Control.act, Control.skips, Control.enter, Control.give, hnot]
    refine answers_exhausted (reaches_of_act hact) rfl fun r hr => ?_
    cases hr
  | succ levels ih => exact serves_conditional (ih (by omega)) (by omega)

end Tasks

section Verdicts

variable {s : Bytes} {last : State} {r : Reading}

theorem verdict_of_exhausted (h : last.control.exhausted = true) : last.verdict s = none := by
  unfold State.verdict
  split
  · simp [h]
  · rfl

/-- In a text without terminators only its end ends an expression. -/
theorem verdict_of_done (hs : ∀ b ∈ s, isTerminator b = false) {position depth nodes : ℕ}
    {e : Expr} {frames : List Frame} :
    State.verdict s ⟨position, .done e, frames, depth, nodes, false⟩ =
      if s.drop position = [] then some e else none := by
  cases hdrop : s.drop position with
  | nil => simp [State.verdict, hdrop]
  | cons b rest =>
    have hb : isTerminator b = false := by
      apply hs b
      apply List.mem_of_mem_drop (i := position)
      rw [hdrop]
      exact List.mem_cons_self
    simp [State.verdict, hdrop, hb]

/-- The machine stops after the blanks that follow an expression, or exhausted. -/
theorem exists_stop (s : Bytes) : ∃ last, last ∈ eval (step s) start ∧
    ((∃ r position, nested maxDepth (tokens s) = some r ∧ r.nodes ≤ maxNodes ∧
      last = ⟨position, .done r.expr, [], 0, r.nodes, false⟩ ∧
      startsWithBlank (s.drop position) = false ∧ tokens (s.drop position) = r.rest) ∨
    (∀ r, nested maxDepth (tokens s) = some r → maxNodes < r.nodes) ∧
      last.control.exhausted = true) := by
  have hserves : Serves s 0 .whole (nested maxDepth) := serves_nested maxDepth (Nat.zero_add _)
  rcases hserves [] 0 0 (Nat.zero_le _) with ⟨r, position, hr, hle, hrest, hreach⟩ |
    ⟨hover, st, hreach, hx⟩
  · obtain ⟨p, hblanks, hb, htokens⟩ := exists_reaches_blanks s position
      (c := ⟨.done r.expr, [], 0, 0 + r.nodes, false⟩) rfl
    rw [Nat.zero_add] at hle hreach hblanks
    have hstop : step s ⟨p, .done r.expr, [], 0, r.nodes, false⟩ = none := by
      simp [step, Control.act, hb]
    exact ⟨_, mem_eval.mpr ⟨hreach.trans hblanks, hstop⟩,
      Or.inl ⟨r, p, hr, hle, rfl, hb, htokens.trans hrest⟩⟩
  · obtain ⟨last, hlast⟩ := exists_mem_eval s st
    have hx' := exhausted_of_reaches (mem_eval.mp hlast).1 hx
    rw [← reaches_eval hreach] at hlast
    refine ⟨last, hlast, Or.inr ⟨fun r hr => ?_, hx'⟩⟩
    have hlt := hover r hr
    omega

/-- The machine comes to the expression that the tokens spell, if they spell one. -/
theorem exists_verdict (hs : ∀ b ∈ s, isTerminator b = false) :
    ∃ last, last ∈ eval (step s) start ∧ last.verdict s = Expr.ofTokens? (tokens s) := by
  obtain ⟨last, hlast, ⟨r, position, hr, hle, rfl, hb, hrest⟩ | ⟨hover, hx⟩⟩ := exists_stop s
  · refine ⟨_, hlast, ?_⟩
    have hend := tokens_eq_nil_iff hb
    rw [hrest] at hend
    rw [verdict_of_done hs, Expr.ofTokens?, hr]
    simp [hle, hend]
  · refine ⟨_, hlast, ?_⟩
    rw [verdict_of_exhausted hx, Expr.ofTokens?]
    cases hr : nested maxDepth (tokens s) with
    | none => rfl
    | some r =>
      have hlt := hover r hr
      have hnot : ¬r.nodes ≤ maxNodes := by omega
      simp [hnot]

end Verdicts

end Machine

end MessageCatalog.Plural
