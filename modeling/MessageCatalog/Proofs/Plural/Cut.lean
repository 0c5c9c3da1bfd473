import MessageCatalog.Proofs.Plural.Scanning

/-!
A text cut into pieces from its start, the longest piece each time. There is one way to do it, and
where the scan meets no stray byte the cut goes to the end, in pieces that spell the tokens.
-/
namespace MessageCatalog.Plural

/-- A space, a tab or a token. -/
inductive Piece : Bytes → Prop
  | blank {b : UInt8} (h : b = 32 ∨ b = 9) : Piece [b]
  | number {digits : Bytes} (h : Numeral digits) : Piece digits
  | mark {b : UInt8} (h : b ∈ ascii ['n', '(', ')', '?', ':']) : Piece [b]
  | symbol (op : Operator) : Piece (ascii op.symbol)

/-- The longest piece that a text starts with. -/
structure Longest (p s : Bytes) : Prop where
  piece : Piece p
  starts : p <+: s
  length_le : ∀ q, Piece q → q <+: s → q.length ≤ p.length

/-- A text cut from its start, a longest piece each time, and what remains of it. -/
def Cut : List Bytes → Bytes → Bytes → Prop
  | [], s, rest => s = rest
  | p :: pieces, s, rest => ∃ after, s = p ++ after ∧ Longest p s ∧ Cut pieces after rest

theorem symbol_ne_nil (op : Operator) : ascii op.symbol ≠ [] := by
  cases op <;> exact List.cons_ne_nil _ _

theorem Piece.ne_nil {p : Bytes} (h : Piece p) : p ≠ [] := by
  cases h with
  | blank h => exact List.cons_ne_nil _ _
  | number h => exact h.1
  | mark h => exact List.cons_ne_nil _ _
  | symbol op => exact symbol_ne_nil op

theorem Longest.unique {p q s : Bytes} (hp : Longest p s) (hq : Longest q s) : p = q := by
  have hpq := hq.length_le p hp.piece hp.starts
  have hqp := hp.length_le q hq.piece hq.starts
  exact (List.prefix_of_prefix_length_le hp.starts hq.starts hpq).eq_of_length
    (Nat.le_antisymm hpq hqp)

/-- There is one way to cut a text, so a cut that goes to the end goes on where another stops. -/
theorem Cut.exists_append {pieces others : List Bytes} {s rest : Bytes} (h : Cut pieces s [])
    (ho : Cut others s rest) : ∃ more, pieces = others ++ more ∧ Cut more rest [] := by
  induction others generalizing pieces s with
  | nil =>
    obtain rfl : s = rest := ho
    exact ⟨pieces, rfl, h⟩
  | cons q others ih =>
    obtain ⟨after, rfl, hq, ho⟩ := ho
    cases pieces with
    | nil => exact absurd (List.append_eq_nil_iff.mp h).1 hq.piece.ne_nil
    | cons p pieces =>
      -- Both cuts start with the longest piece, so with the same one.
      obtain ⟨after', hsplit, hp, h⟩ := h
      obtain rfl := hp.unique hq
      obtain rfl := List.append_cancel_left hsplit
      obtain ⟨more, rfl, hmore⟩ := ih h ho
      exact ⟨more, rfl, hmore⟩

theorem Cut.exists_mem {pieces : List Bytes} {s : Bytes} (h : Cut pieces s []) {b : UInt8}
    (hb : b ∈ s) : ∃ p, Piece p ∧ b ∈ p := by
  induction pieces generalizing s with
  | nil =>
    obtain rfl : s = [] := h
    cases hb
  | cons p pieces ih =>
    obtain ⟨after, rfl, hp, h⟩ := h
    rcases List.mem_append.mp hb with hb | hb
    · exact ⟨p, hp.piece, hb⟩
    · exact ih h hb

theorem not_blanks_numeral {digits : Bytes} (h : Numeral digits) : ¬Blanks digits := by
  obtain ⟨b, s, rfl⟩ := List.exists_cons_of_ne_nil h.1
  have hdigit := h.2 b List.mem_cons_self
  intro hb
  rcases hb b List.mem_cons_self with rfl | rfl
  · cases hdigit
  · cases hdigit

theorem not_blanks_symbol (op : Operator) : ¬Blanks (ascii op.symbol) := by
  cases op <;> decide

namespace Token

def Spells : Token → Bytes → Prop
  | number value, p => Numeral p ∧ value = digitsValue maxConstant p
  | count, p => p = ascii ['n']
  | opening, p => p = ascii ['(']
  | closing, p => p = ascii [')']
  | question, p => p = ascii ['?']
  | colon, p => p = ascii [':']
  | minus _, p => p = ascii ['-']
  | operator op, p => p = ascii op.symbol
  | stray, _ => False

theorem Spells.piece {t : Token} {p : Bytes} (h : t.Spells p) : Piece p := by
  cases t with
  | number value => exact .number h.1
  | count | opening | closing | question | colon =>
    obtain rfl := h
    exact .mark (by decide)
  | minus joined =>
    obtain rfl := h
    exact .symbol .subtract
  | operator op =>
    obtain rfl := h
    exact .symbol op
  | stray => cases h

theorem Spells.not_blanks {t : Token} {p : Bytes} (h : t.Spells p) : ¬Blanks p := by
  cases t with
  | number value => exact not_blanks_numeral h.1
  | count | opening | closing | question | colon =>
    obtain rfl := h
    decide
  | minus joined =>
    obtain rfl := h
    decide
  | operator op =>
    obtain rfl := h
    exact not_blanks_symbol op
  | stray => cases h

end Token

section Longest

variable {s : Bytes}

theorem symbol_length (op : Operator) : (ascii op.symbol).length = 1 ∨
    ∃ a b, ascii op.symbol = [a, b] ∧ Pending.pair? a b = some op := by
  cases op with
  | equal | notEqual | lessEqual | greaterEqual | and | or => exact Or.inr ⟨_, _, rfl, rfl⟩
  | _ => exact Or.inl rfl

theorem longest_of {p : Bytes} (hp : Piece p) (hs : p <+: s)
    (hdigits : (s.takeWhile isDigit).length ≤ p.length)
    (hpair : p.length = 1 → ∀ a b rest, s = a :: b :: rest → Pending.pair? a b = none) :
    Longest p s := by
  have hpos : 0 < p.length := List.length_pos_iff.mpr hp.ne_nil
  refine ⟨hp, hs, ?_⟩
  -- Only digits and the operators of two bytes are longer than one byte.
  intro q hq hqs
  cases hq with
  | blank _ => exact hpos
  | mark _ => exact hpos
  | number hq =>
    obtain ⟨after, rfl⟩ := hqs
    rw [List.takeWhile_append_of_pos hq.2, List.length_append] at hdigits
    omega
  | symbol op =>
    obtain hlen | ⟨a, b, hab, hop⟩ := symbol_length op
    · rw [hlen]
      exact hpos
    · rw [hab] at hqs ⊢
      obtain ⟨after, rfl⟩ := hqs
      by_contra hlt
      rw [hpair (by simp at hlt; omega) a b after rfl] at hop
      cases hop

theorem toUInt8_ofUInt8 (b : UInt8) : (Char.ofUInt8 b).toUInt8 = b := by
  revert b
  apply forall_byte
  decide +kernel

theorem symbol_of_pair? {a b : UInt8} {op : Operator} (h : Pending.pair? a b = some op) :
    ascii op.symbol = [a, b] := by
  rw [← toUInt8_ofUInt8 a, ← toUInt8_ofUInt8 b]
  unfold Pending.pair? at h
  split at h
  case h_7 => cases h
  all_goals
    rename_i ha hb
    obtain rfl := Option.some.inj h
    rw [ha, hb]
    rfl

theorem isDigit_of_pair? {a b : UInt8} {op : Operator} (h : Pending.pair? a b = some op) :
    isDigit a = false := by
  have hsymbol := symbol_of_pair? h
  have hall : ∀ op : Operator, (ascii op.symbol).all (!isDigit ·) := by
    intro op
    cases op <;> rfl
  have hop := hall op
  rw [hsymbol] at hop
  simp at hop
  exact hop.1

theorem longest_digits (h : startsWithDigit s = true) :
    Numeral (s.takeWhile isDigit) ∧ Longest (s.takeWhile isDigit) s := by
  cases s with
  | nil => cases h
  | cons c s =>
    have hc : isDigit c = true := h
    have hnumeral : Numeral ((c :: s).takeWhile isDigit) := by
      constructor
      · simp [hc]
      · exact List.all_eq_true.mp List.all_takeWhile
    have hstarts : (c :: s).takeWhile isDigit <+: c :: s := List.takeWhile_prefix _
    refine ⟨hnumeral, longest_of (.number hnumeral) hstarts (Nat.le_refl _) ?_⟩
    rintro - a b rest hs
    obtain ⟨rfl, -⟩ := List.cons.inj hs
    by_contra hop
    obtain ⟨op, hop⟩ := Option.ne_none_iff_exists'.mp hop
    rw [isDigit_of_pair? hop] at hc
    cases hc

theorem startsWithDigit_dropWhile (s : Bytes) : startsWithDigit (s.dropWhile isDigit) = false := by
  have h := List.head?_dropWhile_not isDigit s
  unfold startsWithDigit
  cases hs : (s.dropWhile isDigit).head? with
  | none => rfl
  | some b =>
    rw [hs] at h
    exact h

theorem longest_single {b : UInt8} (hp : Piece [b]) (hd : isDigit b = false)
    (hpair : ∀ c rest, s = c :: rest → Pending.pair? b c = none) : Longest [b] (b :: s) := by
  apply longest_of hp ⟨s, rfl⟩
  · simp [hd]
  · rintro - a c rest hs
    obtain ⟨rfl, rfl⟩ := List.cons.inj hs
    exact hpair c rest rfl

theorem longest_pair {a b : UInt8} {op : Operator} (h : Pending.pair? a b = some op) :
    Longest [a, b] (a :: b :: s) := by
  have hp : Piece [a, b] := symbol_of_pair? h ▸ .symbol op
  apply longest_of hp ⟨s, rfl⟩
  · simp [isDigit_of_pair? h]
  · intro hlen
    cases hlen

end Longest

/-- The bytes that are tokens whatever follows. -/
def lone : Bytes := ascii ['n', '(', ')', '?', ':', '+', '*', '/', '%']

/-- The bytes that a second byte may complete. -/
def halves : Bytes := ascii ['|', '&', '=', '!', '<', '>']

namespace Token

variable {b : UInt8} {s : Bytes}

theorem start_cases (b : UInt8) : (b = 32 ∨ b = 9) ∨ isDigit b ∨ b = 45 ∨ b ∈ lone ∨ b ∈ halves ∨
    Pending.start b = ([.stray], .nothing) := by
  have hb := toUInt8_ofUInt8 b
  unfold Pending.start
  split
  case h_19 =>
    cases hd : isDigit b with
    | true => simp
    | false => simp
  all_goals
    rename_i h
    rw [h] at hb
    subst hb
    decide

theorem start_lone (h : b ∈ lone) :
    (∃ t : Token, Pending.start b = ([t], .nothing) ∧ t.Spells [b]) ∧ isDigit b = false ∧
      ∀ c, Pending.pair? b c = none := by
  simp only [lone, ascii, List.map, List.mem_cons, List.not_mem_nil, or_false] at h
  rcases h with rfl | rfl | rfl | rfl | rfl | rfl | rfl | rfl | rfl <;>
    exact ⟨⟨_, rfl, rfl⟩, rfl, fun _ => rfl⟩

theorem start_half (h : b ∈ halves) :
    Pending.start b = ([], .half b) ∧ isDigit b = false := by
  simp only [halves, ascii, List.map, List.mem_cons, List.not_mem_nil, or_false] at h
  rcases h with rfl | rfl | rfl | rfl | rfl | rfl <;> exact ⟨rfl, rfl⟩

theorem finish_half (b : UInt8) : (Pending.half b).finish = [.stray] ∨
    ∃ op, (Pending.half b).finish = [.operator op] ∧ ascii op.symbol = [b] := by
  have hb := toUInt8_ofUInt8 b
  simp only [Pending.finish]
  split
  · rename_i hless
    rw [hless] at hb
    exact Or.inr ⟨.less, rfl, congrArg (fun b => [b]) hb⟩
  · rename_i hgreater
    rw [hgreater] at hb
    exact Or.inr ⟨.greater, rfl, congrArg (fun b => [b]) hb⟩
  · exact Or.inl rfl

theorem mem_halves_of_pair? {a b : UInt8} {op : Operator} (h : Pending.pair? a b = some op) :
    b ∈ halves := by
  have hall : ∀ op : Operator, (ascii op.symbol).tail.all (· ∈ halves) := by
    intro op
    cases op <;> rfl
  have hop := hall op
  rw [symbol_of_pair? h] at hop
  simpa using hop

/-- A piece at the start of a text that is a blank or spells the first token of the text. -/
structure First (p s after : Bytes) : Prop where
  split : s = p ++ after
  longest : Longest p s
  scan : (Blanks p ∧ scanFrom .nothing s = scanFrom .nothing after) ∨
    ∃ t : Token, t.Spells p ∧ scanFrom .nothing s = t :: scanFrom .nothing after

theorem first_blank (hb : b = 32 ∨ b = 9) : First [b] (b :: s) s := by
  have hblanks : Blanks [b] := by simpa [Blanks] using hb
  have halone : isDigit b = false ∧ ∀ c, Pending.pair? b c = none := by
    rcases hb with rfl | rfl <;> exact ⟨rfl, fun _ => rfl⟩
  constructor
  · rfl
  · exact longest_single (.blank hb) halone.1 fun c _ _ => halone.2 c
  · exact Or.inl ⟨hblanks, scanFrom_blanks hblanks s⟩

theorem first_digits (h : startsWithDigit s) :
    First (s.takeWhile isDigit) s (s.dropWhile isDigit) := by
  have hsplit : s.takeWhile isDigit ++ s.dropWhile isDigit = s := List.takeWhile_append_dropWhile
  obtain ⟨hnumeral, hlongest⟩ := longest_digits h
  have hscan := scanFrom_digits hnumeral (startsWithDigit_dropWhile s)
  rw [hsplit] at hscan
  constructor
  · exact hsplit.symm
  · exact hlongest
  · exact Or.inr ⟨.number _, ⟨hnumeral, rfl⟩, hscan⟩

theorem first_single {t : Token} (ht : t.Spells [b]) (hd : isDigit b = false)
    (hpair : ∀ c rest, s = c :: rest → Pending.pair? b c = none)
    (hscan : scanFrom .nothing (b :: s) = t :: scanFrom .nothing s) : First [b] (b :: s) s := by
  constructor
  · rfl
  · exact longest_single ht.piece hd hpair
  · exact Or.inr ⟨t, ht, hscan⟩

theorem first_pair {c : UInt8} {op : Operator} (hb : b ∈ halves)
    (hop : Pending.pair? b c = some op) : First [b, c] (b :: c :: s) s := by
  have hspells : (operator op).Spells [b, c] := (symbol_of_pair? hop).symm
  constructor
  · rfl
  · exact longest_pair hop
  · refine Or.inr ⟨_, hspells, ?_⟩
    rw [scanFrom_nothing_cons, (start_half hb).1]
    simp [scanFrom, Pending.step, hop]

theorem exists_first_half (hb : b ∈ halves)
    (h : (scanFrom .nothing (b :: s)).head? ≠ some .stray) :
    ∃ p after, First p (b :: s) after := by
  obtain ⟨hstart, hdigit⟩ := start_half hb
  have hscan := scanFrom_nothing_cons b s
  rw [hstart] at hscan
  cases hpair : s.head?.bind (Pending.pair? b) with
  | some op =>
    obtain ⟨c, hc, hop⟩ := Option.bind_eq_some_iff.mp hpair
    obtain ⟨rest, rfl⟩ := List.head?_eq_some_iff.mp hc
    exact ⟨_, _, first_pair hb hop⟩
  | none =>
    rw [Option.bind_eq_none_iff] at hpair
    rw [scanFrom_half hpair] at hscan
    rcases finish_half b with hstray | ⟨op, hop, hsymbol⟩
    · rw [hscan, hstray] at h
      exact absurd rfl h
    · rw [hop] at hscan
      have hspells : (operator op).Spells [b] := hsymbol.symm
      refine ⟨_, _, first_single hspells hdigit ?_ hscan⟩
      rintro c rest rfl
      exact hpair c rfl

theorem exists_first (h : (scanFrom .nothing (b :: s)).head? ≠ some .stray) :
    ∃ p after, First p (b :: s) after := by
  have hscan := scanFrom_nothing_cons b s
  rcases start_cases b with hblank | hdigit | rfl | hlone | hhalf | hstray
  · exact ⟨_, _, first_blank hblank⟩
  · exact ⟨_, _, first_digits hdigit⟩
  · have hspells : (minus (startsWithDigit s)).Spells [45] := rfl
    exact ⟨_, _, first_single hspells rfl (fun _ _ _ => rfl) (scanFrom_minus s)⟩
  · obtain ⟨⟨t, hstart, hspells⟩, hdigit, hpair⟩ := start_lone hlone
    rw [hstart] at hscan
    exact ⟨_, _, first_single hspells hdigit (fun c _ _ => hpair c) hscan⟩
  · exact exists_first_half hhalf h
  · rw [hscan, hstray] at h
    exact absurd rfl h

end Token

def visible (pieces : List Bytes) : List Bytes := pieces.filter fun p => ¬Blanks p

/-- A text without stray tokens is cut to its end, and its pieces spell its tokens. -/
theorem exists_cut (s : Bytes) (h : .stray ∉ Token.scanFrom .nothing s) :
    ∃ pieces, Cut pieces s [] ∧
      List.Forall₂ Token.Spells (Token.scanFrom .nothing s) (visible pieces) := by
  -- What remains after the first piece is shorter.
  induction hn : s.length using Nat.strongRecOn generalizing s with
  | ind n ih =>
    cases s with
    | nil => exact ⟨[], rfl, .nil⟩
    | cons b s =>
      obtain ⟨p, after, hfirst⟩ := Token.exists_first (mt List.mem_of_head? h)
      have hpos := List.length_pos_iff.mpr hfirst.longest.piece.ne_nil
      have hlen : after.length < n := by
        rw [← hn, hfirst.split, List.length_append]
        omega
      rcases hfirst.scan with ⟨hblanks, hscan⟩ | ⟨t, hspells, hscan⟩
      · rw [hscan] at h ⊢
        obtain ⟨pieces, hcut, htokens⟩ := ih _ hlen after h rfl
        refine ⟨p :: pieces, ⟨after, hfirst.split, hfirst.longest, hcut⟩, ?_⟩
        simpa [visible, hblanks] using htokens
      · rw [hscan] at h ⊢
        obtain ⟨pieces, hcut, htokens⟩ := ih _ hlen after (mt (List.mem_cons_of_mem t) h) rfl
        refine ⟨p :: pieces, ⟨after, hfirst.split, hfirst.longest, hcut⟩, ?_⟩
        simpa [visible, hspells.not_blanks, hspells] using htokens

end MessageCatalog.Plural
