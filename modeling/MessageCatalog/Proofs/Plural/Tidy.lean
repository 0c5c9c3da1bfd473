import MessageCatalog.Proofs.Plural.Cut
import MessageCatalog.Proofs.Plural.Repair

/-!
The text of an expression that is read, repairs included. Cut into pieces, the longest first, it
has only blanks and tokens; it closes no more than it opened, and its operands stand apart.
-/
namespace MessageCatalog.Plural

/-- The byte and the token of a bracket or of a mark of a condition. -/
def brackets : List (UInt8 × Token) :=
  [(40, .opening), (41, .closing), (63, .question), (58, .colon)]

namespace Token

variable {c : UInt8} {t : Token}

theorem count_start (h : (c, t) ∈ brackets) (b : UInt8) :
    (Pending.start b).1.count t = [b].count c := by
  have hall : ∀ q ∈ brackets, (Pending.start b).1.count q.2 = [b].count q.1 := by
    revert b
    apply forall_byte
    decide +kernel
  exact hall (c, t) h

theorem count_cons_of_notMem (h : (c, t) ∈ brackets) {u : Token} (hu : (c, u) ∉ brackets)
    (ts : List Token) : (u :: ts).count t = ts.count t := by
  apply List.count_cons_of_ne
  rintro rfl
  exact hu h

theorem count_finish (h : (c, t) ∈ brackets) (p : Pending) : p.finish.count t = 0 := by
  have hplain : ∀ u ∈ p.finish, (c, u) ∉ brackets := by
    cases p with
    | nothing => simp [Pending.finish]
    | number value => simp [Pending.finish, brackets]
    | minus => simp [Pending.finish, brackets]
    | half b =>
      simp only [Pending.finish]
      split <;> simp [brackets]
  rw [List.count_eq_zero]
  exact fun hmem => hplain t hmem h

/-- A byte finishes a bracket exactly where it is one; what was begun before is none. -/
theorem count_step (h : (c, t) ∈ brackets) (p : Pending) (b : UInt8) :
    (p.step b).1.count t = [b].count c := by
  have hstart := count_start h b
  -- A byte that goes on with what was begun starts no token, and is no bracket either.
  cases p with
  | nothing => exact hstart
  | minus =>
    rw [← hstart]
    exact count_cons_of_notMem h (by simp [brackets]) _
  | number value =>
    have hcons := count_cons_of_notMem h (by simp [brackets] : (c, number value) ∉ brackets)
    cases hd : isDigit b with
    | true => simpa [Pending.step, hd, start_digit hd] using hstart
    | false => simpa [Pending.step, hd, hcons] using hstart
  | half a =>
    cases hop : Pending.pair? a b with
    | none => simpa [Pending.step, hop, count_finish h] using hstart
    | some op =>
      have hcons := count_cons_of_notMem h (by simp [brackets] : (c, operator op) ∉ brackets)
      rw [(start_half (mem_halves_of_pair? hop)).1] at hstart
      simpa [Pending.step, hop, hcons] using hstart

/-- At each byte of a text, its tokens so far have the brackets of its bytes so far. -/
theorem exists_prefix_scanFrom {u w : Bytes} (hu : u <+: w) (p : Pending) :
    ∃ l, l <+: scanFrom p w ∧ ∀ c t, (c, t) ∈ brackets → l.count t = u.count c := by
  induction u generalizing w p with
  | nil => exact ⟨[], List.nil_prefix, fun _ _ _ => rfl⟩
  | cons b u ih =>
    obtain ⟨v, rfl⟩ := hu
    obtain ⟨l, hl, hcount⟩ := ih (List.prefix_append u v) (p.step b).2
    refine ⟨(p.step b).1 ++ l, (List.prefix_append_right_inj _).mpr hl, ?_⟩
    intro c t h
    rw [List.count_append, count_step h, hcount c t h, ← List.count_append]
    rfl

end Token

/-- What is balanced in tokens is balanced in bytes. -/
theorem Balanced.of_scanFrom {o c : UInt8} {t u : Token} {w : Bytes} (ho : (o, t) ∈ brackets)
    (hc : (c, u) ∈ brackets) (h : Balanced t u (Token.scanFrom .nothing w)) : Balanced o c w := by
  intro u hu
  obtain ⟨l, hl, hcount⟩ := Token.exists_prefix_scanFrom hu .nothing
  rw [← hcount _ _ ho, ← hcount _ _ hc]
  exact h l hl

/-- A number, the count, or the given bracket of a group. -/
def Edge (bracket : UInt8) (p : Bytes) : Prop := Numeral p ∨ p = ascii ['n'] ∨ p = [bracket]

def StartsOperand (p : Bytes) : Prop := Edge 40 p

def EndsOperand (p : Bytes) : Prop := Edge 41 p

/-- Blanks aside, no operand stands next to another one. -/
def Spaced (pieces : List Bytes) : Prop :=
  (visible pieces).IsChain fun p q => EndsOperand p → ¬StartsOperand q

section Edge

variable {c : UInt8} {t u : Token} {p : Bytes}

theorem Edge.not_blanks (h : Edge c p) (hu : (c, u) ∈ brackets) : ¬Blanks p := by
  have hbracket : ∀ q ∈ brackets, ¬Blanks [q.1] := by decide
  rcases h with h | rfl | rfl
  · exact not_blanks_numeral h
  · decide
  · exact hbracket _ hu

theorem not_edge_symbol (hu : (c, u) ∈ brackets) (op : Operator) : ¬Edge c (ascii op.symbol) := by
  have hall : ∀ q ∈ brackets, ¬Edge q.1 (ascii op.symbol) := by
    unfold Edge
    cases op <;> decide
  exact hall _ hu

theorem Token.Spells.edge (hu : (c, u) ∈ brackets) (h : t.Spells p) (hp : Edge c p) :
    Token.edge u t := by
  have hmark : ∀ q ∈ brackets, ∀ r ∈ brackets, Edge q.1 [r.1] → Token.edge q.2 r.2 := by
    unfold Edge
    decide
  cases t with
  | number value => rfl
  | count => rfl
  | opening | closing | question | colon =>
    obtain rfl := h
    exact hmark _ hu (_, _) (by decide) hp
  | minus joined =>
    obtain rfl := h
    exact absurd hp (not_edge_symbol hu .subtract)
  | operator op =>
    obtain rfl := h
    exact absurd hp (not_edge_symbol hu op)
  | stray => cases h

end Edge

theorem Apart.spells {ts : List Token} {pieces : List Bytes} (h : Apart ts)
    (hp : List.Forall₂ Token.Spells ts pieces) :
    pieces.IsChain fun p q => EndsOperand p → ¬StartsOperand q := by
  induction hp with
  | nil => exact .nil
  | cons ht hrest ih =>
    unfold Apart at h
    rw [List.isChain_cons] at h
    rw [List.isChain_cons]
    refine ⟨?_, ih h.2⟩
    intro q hq hends hstarts
    cases hrest with
    | nil => cases hq
    | cons ht' _ =>
      obtain rfl := Option.some.inj hq
      exact h.1 _ rfl (ht.edge (by decide) hends) (ht'.edge (by decide) hstarts)

/-- The text of an expression or of a repaired one. -/
structure Tidy (w : Bytes) : Prop where
  exists_cut : ∃ pieces, Cut pieces w [] ∧ Spaced pieces
  /-- Of the parentheses. -/
  groups : Balanced 40 41 w
  /-- Of the question marks and colons. -/
  branches : Balanced 63 58 w

theorem tidy_of_repaired {w : Bytes} (h : Repaired (Token.scanFrom .nothing w)) : Tidy w := by
  obtain ⟨pieces, hcut, hspells⟩ := exists_cut w h.stray_notMem
  constructor
  · exact ⟨pieces, hcut, h.apart.spells hspells⟩
  · exact h.balanced_groups.of_scanFrom (by simp [brackets]) (by simp [brackets])
  · exact h.balanced_branches.of_scanFrom (by simp [brackets]) (by simp [brackets])

/-- No piece starts with half an operator that no second byte completes. -/
theorem not_piece_half {b : UInt8} {rest p : Bytes} (hb : b ∈ ascii ['=', '|', '&', '!'])
    (hs : ∀ op : Operator, ¬ascii op.symbol <+: b :: rest) (hp : Piece p) : ¬p <+: b :: rest := by
  intro hstarts
  obtain ⟨hblank, hdigit, hmark⟩ : ¬(b = 32 ∨ b = 9) ∧ ¬isDigit b ∧
      b ∉ ascii ['n', '(', ')', '?', ':'] := by
    simp only [ascii, List.map, List.mem_cons, List.not_mem_nil, or_false] at hb
    rcases hb with rfl | rfl | rfl | rfl <;> decide
  cases hp with
  | symbol op => exact hs op hstarts
  | blank h =>
    obtain ⟨rfl, -⟩ := List.cons_prefix_cons.mp hstarts
    exact hblank h
  | mark h =>
    obtain ⟨rfl, -⟩ := List.cons_prefix_cons.mp hstarts
    exact hmark h
  | number h =>
    obtain ⟨c, digits, rfl⟩ := List.exists_cons_of_ne_nil h.1
    obtain ⟨rfl, -⟩ := List.cons_prefix_cons.mp hstarts
    exact hdigit (h.2 c List.mem_cons_self)

/-- A cut does not stop before the end of a text that can be cut to its end. -/
theorem Cut.exists_piece {pieces others : List Bytes} {s rest : Bytes} (h : Cut pieces s [])
    (ho : Cut others s rest) (hrest : rest ≠ []) : ∃ p, Piece p ∧ p <+: rest := by
  obtain ⟨more, -, hmore⟩ := h.exists_append ho
  cases more with
  | nil => exact absurd hmore hrest
  | cons p more =>
    obtain ⟨-, -, hp, -⟩ := hmore
    exact ⟨p, hp.piece, hp.starts⟩

/-- Two operands that are cut one after the other are next to each other in every further cut. -/
theorem Spaced.not_adjacent {before blanks more : List Bytes} {p q : Bytes}
    (h : Spaced (before ++ p :: (blanks ++ [q]) ++ more)) (hblanks : ∀ b ∈ blanks, Blanks b)
    (hp : EndsOperand p) : ¬StartsOperand q := by
  intro hq
  have hpb : ¬Blanks p := Edge.not_blanks hp (u := .closing) (by decide)
  have hqb : ¬Blanks q := Edge.not_blanks hq (u := .opening) (by decide)
  have hvisible : visible (before ++ p :: (blanks ++ [q]) ++ more) =
      visible before ++ p :: q :: visible more := by
    simpa [visible, hpb, hqb] using hblanks
  unfold Spaced at h
  rw [hvisible, List.isChain_append_cons_cons] at h
  exact h.2.1 hp hq

/-- Whatever is read as an expression is tidy up to its end; so no text is read that has, at any
place before its end, a byte of no token, half an operator, more closed than was opened, or an
operand next to another one. -/
theorem ofBytes?_tidy (s : Bytes) :
    let w := s.takeWhile (!isTerminator ·)
    (∀ e, Expr.ofBytes? s = some e → Tidy w) ∧
      (∀ b ∈ w, (∀ p, Piece p → b ∉ p) → Expr.ofBytes? s = none) ∧
      (∀ pieces b rest, Cut pieces w (b :: rest) → b ∈ ascii ['=', '|', '&', '!'] →
        (∀ op : Operator, ¬ascii op.symbol <+: b :: rest) → Expr.ofBytes? s = none) ∧
      (∀ u, u <+: w → u.count 40 < u.count 41 ∨ u.count 63 < u.count 58 →
        Expr.ofBytes? s = none) ∧
      ∀ before p blanks q rest, Cut (before ++ p :: (blanks ++ [q])) w rest →
        (∀ b ∈ blanks, Blanks b) → EndsOperand p → StartsOperand q → Expr.ofBytes? s = none := by
  intro w
  have htidy : ∀ e, Expr.ofBytes? s = some e → Tidy w := by
    intro e h
    exact tidy_of_repaired (repaired_of_ofTokens? h)
  have hnone : ¬Tidy w → Expr.ofBytes? s = none := by
    intro h
    by_contra hne
    obtain ⟨e, he⟩ := Option.ne_none_iff_exists'.mp hne
    exact h (htidy e he)
  refine ⟨htidy, ?_, ?_, ?_, ?_⟩
  · intro b hb hforeign
    apply hnone
    rintro ⟨⟨pieces, hcut, -⟩, -, -⟩
    obtain ⟨p, hp, hmem⟩ := hcut.exists_mem hb
    exact hforeign p hp hmem
  · intro others b rest ho hb hhalf
    apply hnone
    rintro ⟨⟨pieces, hcut, -⟩, -, -⟩
    obtain ⟨p, hp, hstarts⟩ := hcut.exists_piece ho (List.cons_ne_nil _ _)
    exact not_piece_half hb hhalf hp hstarts
  · intro u hu hmore
    apply hnone
    rintro ⟨-, hgroups, hbranches⟩
    rcases hmore with hmore | hmore
    · exact Nat.not_lt.mpr (hgroups u hu) hmore
    · exact Nat.not_lt.mpr (hbranches u hu) hmore
  · intro before p blanks q rest ho hblanks hends hstarts
    apply hnone
    rintro ⟨⟨pieces, hcut, hspaced⟩, -, -⟩
    obtain ⟨more, rfl, -⟩ := hcut.exists_append ho
    exact hspaced.not_adjacent hblanks hends hstarts

/-- A group that stays open reads as zero, whatever is missing in it, but not with a parenthesis too
many. -/
theorem ofBytes?_tidy_unclosed :
    Expr.ofBytes? (ascii "(n ? -3 * ; n)".toList) = some (.constant 0) ∧
      Tidy (ascii "(n ? -3 * ".toList) ∧
      Expr.ofBytes? (ascii "(n ? -3)) * ; n)".toList) = none := by
  have hread : Expr.ofBytes? (ascii "(n ? -3 * ; n)".toList) = some (.constant 0) := by
    decide +kernel
  refine ⟨hread, (ofBytes?_tidy _).1 _ hread, ?_⟩
  apply (ofBytes?_tidy _).2.2.2.1 (ascii "(n ? -3))".toList)
  · decide +kernel
  · decide +kernel

end MessageCatalog.Plural
