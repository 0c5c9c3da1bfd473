import MessageCatalog.Proofs.Bytes
import MessageCatalog.Proofs.Plural.Grammar

/-! The tokens of a text that is laid out by a derivation are the tokens of the derivation. -/
namespace MessageCatalog.Plural

def startsWithDigit (s : Bytes) : Bool := s.head?.any isDigit

namespace Token

theorem scanFrom_nothing_cons (b : UInt8) (s : Bytes) :
    scanFrom .nothing (b :: s) = (Pending.start b).1 ++ scanFrom (Pending.start b).2 s :=
  rfl

theorem start_digit {b : UInt8} (h : isDigit b) :
    Pending.start b = ([], .number (addDigit maxConstant 0 b)) := by
  revert b
  apply forall_byte
  decide +kernel

theorem scanFrom_blanks {blanks : Bytes} (h : Blanks blanks) (s : Bytes) :
    scanFrom .nothing (blanks ++ s) = scanFrom .nothing s := by
  induction blanks with
  | nil => rfl
  | cons b blanks ih =>
    have hb : Pending.start b = ([], .nothing) := by
      rcases h b List.mem_cons_self with rfl | rfl <;> rfl
    rw [List.cons_append, scanFrom_nothing_cons, hb]
    exact ih fun b hb => h b (List.mem_cons_of_mem _ hb)

theorem scanFrom_number {digits : Bytes} (h : ∀ b ∈ digits, isDigit b) (value : ℕ) {s : Bytes}
    (hs : startsWithDigit s = false) :
    scanFrom (.number value) (digits ++ s) =
      Token.number (digits.foldl (addDigit maxConstant) value) :: scanFrom .nothing s := by
  induction digits generalizing value with
  | nil =>
    cases s with
    | nil => rfl
    | cons b s =>
      have hb : isDigit b = false := hs
      simp [scanFrom, Pending.step, hb]
  | cons b digits ih =>
    have hb := h b List.mem_cons_self
    have hstep : scanFrom (.number value) (b :: (digits ++ s)) =
        scanFrom (.number (addDigit maxConstant value b)) (digits ++ s) := by
      simp [scanFrom, Pending.step, hb]
    rw [List.cons_append, hstep, ih fun b hb => h b (List.mem_cons_of_mem _ hb)]
    rfl

theorem scanFrom_digits {digits : Bytes} (h : Numeral digits) {s : Bytes}
    (hs : startsWithDigit s = false) :
    scanFrom .nothing (digits ++ s) =
      Token.number (digitsValue maxConstant digits) :: scanFrom .nothing s := by
  obtain ⟨hne, hd⟩ := h
  cases digits with
  | nil => exact absurd rfl hne
  | cons b digits =>
    rw [List.cons_append, scanFrom_nothing_cons, start_digit (hd b List.mem_cons_self)]
    exact scanFrom_number (fun b hb => hd b (List.mem_cons_of_mem _ hb)) _ hs

theorem scanFrom_minus (s : Bytes) :
    scanFrom .nothing (45 :: s) = Token.minus (startsWithDigit s) :: scanFrom .nothing s := by
  cases s with
  | nil => rfl
  | cons b s => rfl

/-- Half an operator is a token of its own where no second byte completes it. -/
theorem scanFrom_half {a : UInt8} {s : Bytes}
    (h : ∀ b, s.head? = some b → Pending.pair? a b = none) :
    scanFrom (.half a) s = (Pending.half a).finish ++ scanFrom .nothing s := by
  cases s with
  | nil => exact (List.append_nil _).symm
  | cons b s => simp [scanFrom, Pending.step, h b rfl]

theorem pair?_eq_none {a b : UInt8} (ha : a = 60 ∨ a = 62) (hb : b ≠ 61) :
    Pending.pair? a b = none := by
  revert b
  apply forall_byte
  rcases ha with rfl | rfl
  · decide +kernel
  · decide +kernel

/-- A symbol is read as a token of its operator, unless a second byte makes another one of it. -/
theorem scanFrom_symbol (op : Operator) {s : Bytes}
    (hs : op = .less ∨ op = .greater → s.head? ≠ some 61) :
    ∃ t, t.operator? = some op ∧
      scanFrom .nothing (ascii op.symbol ++ s) = t :: scanFrom .nothing s := by
  have hhalf : op = .less ∨ op = .greater → ∀ a, a = 60 ∨ a = 62 →
      ∀ b, s.head? = some b → Pending.pair? a b = none := by
    intro hop a ha b hb
    exact pair?_eq_none ha fun he => hs hop (he ▸ hb)
  cases op with
  | subtract => exact ⟨_, rfl, scanFrom_minus s⟩
  | less => exact ⟨_, rfl, scanFrom_half (hhalf (Or.inl rfl) 60 (Or.inl rfl))⟩
  | greater => exact ⟨_, rfl, scanFrom_half (hhalf (Or.inr rfl) 62 (Or.inr rfl))⟩
  | _ => exact ⟨.operator _, rfl, rfl⟩

end Token

theorem startsWithDigit_blanks {blanks s : Bytes} (hb : Blanks blanks)
    (hs : startsWithDigit s = false) : startsWithDigit (blanks ++ s) = false := by
  cases blanks with
  | nil => exact hs
  | cons b blanks => rcases hb b List.mem_cons_self with rfl | rfl <;> rfl

theorem startsWithDigit_symbol (op : Operator) (s : Bytes) :
    startsWithDigit (ascii op.symbol ++ s) = false := by
  cases op <;> rfl

theorem layout_append {first second : List Bytes} {text : Bytes}
    (h : Layout (first ++ second) text) :
    ∃ a b, text = a ++ b ∧ Layout first a ∧ Layout second b := by
  induction first generalizing text with
  | nil => exact ⟨[], text, rfl, fun _ hb => absurd hb List.not_mem_nil, h⟩
  | cons lexeme first ih =>
    obtain ⟨blanks, rest, hblanks, rfl, hrest⟩ := h
    obtain ⟨a, b, rfl, ha, hb⟩ := ih hrest
    refine ⟨blanks ++ lexeme ++ a, b, ?_, ⟨blanks, a, hblanks, rfl, ha⟩, hb⟩
    rw [List.append_assoc _ a b]

theorem layout_cons {w : Bytes} {lexemes : List Bytes} {text : Bytes}
    (h : Layout (w :: lexemes) text) :
    ∃ a b, text = a ++ b ∧ Layout [w] a ∧ Layout lexemes b :=
  layout_append (show Layout ([w] ++ lexemes) text from h)

theorem startsWithDigit_layout {w : Bytes} {lexemes : List Bytes} {text : Bytes}
    (hl : Layout (w :: lexemes) text) (hw : ∀ s, startsWithDigit (w ++ s) = false) (s : Bytes) :
    startsWithDigit (text ++ s) = false := by
  obtain ⟨blanks, rest, hblanks, rfl, -⟩ := hl
  rw [List.append_assoc, List.append_assoc]
  exact startsWithDigit_blanks hblanks (hw _)

/-- Tokens of a text in front of another one. -/
def Scans (text rest : Bytes) (ts : List Token) : Prop :=
  Token.scanFrom .nothing (text ++ rest) = ts ++ Token.scanFrom .nothing rest

theorem Scans.append {a b rest : Bytes} {ts us : List Token} (ha : Scans a (b ++ rest) ts)
    (hb : Scans b rest us) : Scans (a ++ b) rest (ts ++ us) := by
  unfold Scans at *
  rw [List.append_assoc, ha, hb, List.append_assoc]

theorem scans_layout {w text rest : Bytes} {ts : List Token} (hl : Layout [w] text)
    (hw : ∀ blanks, Blanks blanks → Scans w (blanks ++ rest) ts) : Scans text rest ts := by
  obtain ⟨blanks, after, hblanks, rfl, hafter⟩ := hl
  unfold Scans at *
  rw [List.append_assoc, List.append_assoc, Token.scanFrom_blanks hblanks, hw after hafter,
    Token.scanFrom_blanks hafter]

theorem scans_number {digits text rest : Bytes} (h : Numeral digits) (hl : Layout [digits] text)
    (hrest : startsWithDigit rest = false) :
    Scans text rest [.number (digitsValue maxConstant digits)] :=
  scans_layout hl fun _ hb => Token.scanFrom_digits h (startsWithDigit_blanks hb hrest)

theorem scans_negative {digits text rest : Bytes} (h : Numeral digits)
    (hl : Layout [45 :: digits] text) (hrest : startsWithDigit rest = false) :
    Scans text rest [.minus true, .number (digitsValue maxConstant digits)] := by
  apply scans_layout hl
  intro blanks hb
  have hstart : startsWithDigit (digits ++ (blanks ++ rest)) = true := by
    obtain ⟨hne, hd⟩ := h
    cases digits with
    | nil => exact absurd rfl hne
    | cons b digits => exact hd b List.mem_cons_self
  unfold Scans
  rw [List.cons_append, Token.scanFrom_minus, hstart,
    Token.scanFrom_digits h (startsWithDigit_blanks hb hrest)]
  rfl

theorem scans_mark {w text : Bytes} {t : Token} (hl : Layout [w] text)
    (hw : ∀ s, Token.scanFrom .nothing (w ++ s) = t :: Token.scanFrom .nothing s) (rest : Bytes) :
    Scans text rest [t] :=
  scans_layout hl fun _ _ => hw _

theorem exists_scans_symbol {op : Operator} {text rest : Bytes} (hl : Layout [ascii op.symbol] text)
    (hrest : rest.head? ≠ some 61) :
    ∃ t, t.operator? = some op ∧ Scans text rest [t] := by
  obtain ⟨blanks, after, hblanks, rfl, hafter⟩ := hl
  have hhead : (after ++ rest).head? ≠ some 61 := by
    cases after with
    | nil => exact hrest
    | cons b after => rcases hafter b List.mem_cons_self with rfl | rfl <;> exact nofun
  obtain ⟨t, ht, hscan⟩ := Token.scanFrom_symbol op fun _ => hhead
  refine ⟨t, ht, ?_⟩
  unfold Scans
  rw [List.append_assoc, List.append_assoc, Token.scanFrom_blanks hblanks, hscan,
    Token.scanFrom_blanks hafter]
  rfl

/-- A text that starts with something else than the second half of an operator. -/
def Opens (s : Bytes) : Prop := ∃ b rest, s = b :: rest ∧ b ≠ 61

theorem opens_append {a : Bytes} (h : Opens a) (b : Bytes) : Opens (a ++ b) := by
  obtain ⟨x, rest, rfl, hx⟩ := h
  exact ⟨x, rest ++ b, rfl, hx⟩

theorem Opens.head?_ne {s : Bytes} (h : Opens s) : s.head? ≠ some 61 := by
  obtain ⟨b, rest, rfl, hb⟩ := h
  exact fun he => hb (Option.some.inj he)

theorem opens_numeral {digits : Bytes} (h : Numeral digits) : Opens digits := by
  obtain ⟨hne, hd⟩ := h
  cases digits with
  | nil => exact absurd rfl hne
  | cons b digits =>
    refine ⟨b, digits, rfl, ?_⟩
    rintro rfl
    exact absurd (hd 61 List.mem_cons_self) (by decide)

namespace Derivation

variable {s : Symbol}

theorem exists_lexemes_eq_cons (d : Derivation s) :
    ∃ w ws, d.lexemes = w :: ws ∧ Opens w := by
  induction d with
  | number digits h => exact ⟨digits, [], rfl, opens_numeral h⟩
  | negative digits h => exact ⟨45 :: digits, [], rfl, 45, digits, rfl, by decide⟩
  | count => exact ⟨_, [], rfl, 110, [], rfl, by decide⟩
  | group inner _ => exact ⟨_, _, rfl, 40, [], rfl, by decide⟩
  | single body ih => exact ih
  | plain body ih => exact ih
  | join left op h right ihl _ =>
    obtain ⟨w, ws, hw, ho⟩ := ihl
    exact ⟨w, _, by rw [lexemes, hw]; rfl, ho⟩
  | conditional test yes no iht _ _ =>
    obtain ⟨w, ws, hw, ho⟩ := iht
    exact ⟨w, _, by rw [lexemes, hw]; rfl, ho⟩

theorem opens_of_layout (d : Derivation s) {text : Bytes} (h : Layout d.lexemes text) :
    Opens text := by
  obtain ⟨w, ws, hw, ho⟩ := d.exists_lexemes_eq_cons
  rw [hw] at h
  obtain ⟨blanks, rest, hblanks, rfl, -⟩ := h
  cases blanks with
  | nil => exact opens_append ho rest
  | cons b blanks =>
    refine ⟨b, _, rfl, ?_⟩
    rcases hblanks b List.mem_cons_self with rfl | rfl <;> decide

/-- The tokens of a derivation; a minus sign between operands may stand next to a digit or not. -/
def Spelled {s : Symbol} : Derivation s → List Token → Prop
  | number digits _, ts => ts = [.number (digitsValue maxConstant digits)]
  | negative digits _, ts => ts = [.minus true, .number (digitsValue maxConstant digits)]
  | count, ts => ts = [.count]
  | group inner, ts => ∃ a, inner.Spelled a ∧ ts = .opening :: (a ++ [.closing])
  | single body, ts => body.Spelled ts
  | join left op _ right, ts =>
      ∃ a t b, left.Spelled a ∧ right.Spelled b ∧ t.operator? = some op ∧ ts = a ++ t :: b
  | plain body, ts => body.Spelled ts
  | conditional test yes no, ts =>
      ∃ a b c, test.Spelled a ∧ yes.Spelled b ∧ no.Spelled c ∧
        ts = a ++ .question :: (b ++ .colon :: c)

/-- The scan of a laid out text yields its tokens, whatever follows that is not one more digit. -/
theorem exists_spelled (d : Derivation s) {text rest : Bytes} (hl : Layout d.lexemes text)
    (hrest : startsWithDigit rest = false) : ∃ ts, d.Spelled ts ∧ Scans text rest ts := by
  induction d generalizing text rest with
  | number digits h => exact ⟨_, rfl, scans_number h hl hrest⟩
  | negative digits h => exact ⟨_, rfl, scans_negative h hl hrest⟩
  | count => exact ⟨_, rfl, scans_mark hl (fun _ => rfl) rest⟩
  | group inner ih =>
    obtain ⟨first, second, rfl, hfirst, hsecond⟩ := layout_cons hl
    obtain ⟨body, last, rfl, hbody, hlast⟩ := layout_append hsecond
    obtain ⟨ts, hts, hinner⟩ := ih hbody (startsWithDigit_layout hlast (fun _ => rfl) rest)
    have hopening := scans_mark hfirst (fun _ => rfl) (body ++ last ++ rest)
    have hclosing := scans_mark hlast (fun _ => rfl) rest
    exact ⟨_, ⟨ts, hts, rfl⟩, hopening.append (hinner.append hclosing)⟩
  | single body ih => exact ih hl hrest
  | plain body ih => exact ih hl hrest
  | join left op h right ihl ihr =>
    obtain ⟨first, second, rfl, hfirst, hsecond⟩ := layout_append hl
    obtain ⟨a, ha, hleft⟩ := ihl hfirst
      (startsWithDigit_layout hsecond (startsWithDigit_symbol op) rest)
    obtain ⟨symbol, third, rfl, hsymbol, hthird⟩ := layout_cons hsecond
    obtain ⟨b, hb, hright⟩ := ihr hthird hrest
    obtain ⟨t, ht, hop⟩ := exists_scans_symbol hsymbol
      (opens_append (right.opens_of_layout hthird) rest).head?_ne
    exact ⟨_, ⟨a, t, b, ha, hb, ht, rfl⟩, hleft.append (hop.append hright)⟩
  | conditional test yes no iht ihy ihn =>
    obtain ⟨first, second, rfl, hfirst, hsecond⟩ := layout_append hl
    obtain ⟨a, ha, htest⟩ := iht hfirst (startsWithDigit_layout hsecond (fun _ => rfl) rest)
    obtain ⟨question, third, rfl, hquestion, hthird⟩ := layout_cons hsecond
    obtain ⟨fourth, fifth, rfl, hfourth, hfifth⟩ := layout_append hthird
    obtain ⟨b, hb, hyes⟩ := ihy hfourth (startsWithDigit_layout hfifth (fun _ => rfl) rest)
    obtain ⟨colon, sixth, rfl, hcolon, hsixth⟩ := layout_cons hfifth
    obtain ⟨c, hc, hno⟩ := ihn hsixth hrest
    have hquestion := scans_mark hquestion (fun _ => rfl) (fourth ++ (colon ++ sixth) ++ rest)
    have hcolon := scans_mark hcolon (fun _ => rfl) (sixth ++ rest)
    exact ⟨_, ⟨a, b, c, ha, hb, hc, rfl⟩,
      htest.append (hquestion.append (hyes.append (hcolon.append hno)))⟩

theorem isTerminator_of_all {w : Bytes} (h : w.all (!isTerminator ·)) :
    ∀ b ∈ w, isTerminator b = false := by
  simpa using h

theorem isTerminator_symbol (op : Operator) : ∀ b ∈ ascii op.symbol, isTerminator b = false := by
  apply isTerminator_of_all
  cases op <;> rfl

theorem isTerminator_digit {b : UInt8} (h : isDigit b) : isTerminator b = false := by
  revert b
  apply forall_byte
  decide +kernel

theorem isTerminator_lexeme (d : Derivation s) :
    ∀ w ∈ d.lexemes, ∀ b ∈ w, isTerminator b = false := by
  induction d with
  | number digits h => simpa [lexemes] using fun b hb => isTerminator_digit (h.2 b hb)
  | negative digits h =>
    have h45 : isTerminator 45 = false := rfl
    simpa [lexemes, h45] using fun b hb => isTerminator_digit (h.2 b hb)
  | count => exact List.forall_mem_singleton.mpr (isTerminator_of_all rfl)
  | group inner ih =>
    intro w hw
    simp only [lexemes, List.mem_cons, List.mem_append, List.not_mem_nil, or_false] at hw
    rcases hw with rfl | hw | rfl
    · exact isTerminator_of_all rfl
    · exact ih w hw
    · exact isTerminator_of_all rfl
  | single body ih => exact ih
  | plain body ih => exact ih
  | join left op h right ihl ihr =>
    intro w hw
    simp only [lexemes, List.mem_append, List.mem_cons] at hw
    rcases hw with hw | rfl | hw
    · exact ihl w hw
    · exact isTerminator_symbol op
    · exact ihr w hw
  | conditional test yes no iht ihy ihn =>
    intro w hw
    simp only [lexemes, List.mem_append, List.mem_cons] at hw
    rcases hw with hw | rfl | hw | rfl | hw
    · exact iht w hw
    · exact isTerminator_of_all rfl
    · exact ihy w hw
    · exact isTerminator_of_all rfl
    · exact ihn w hw

end Derivation

theorem isTerminator_layout {lexemes : List Bytes} {text : Bytes} (hl : Layout lexemes text)
    (h : ∀ w ∈ lexemes, ∀ b ∈ w, isTerminator b = false) :
    ∀ b ∈ text, isTerminator b = false := by
  have hblank : ∀ {blanks : Bytes}, Blanks blanks → ∀ b ∈ blanks, isTerminator b = false := by
    intro blanks hblanks b hb
    rcases hblanks b hb with rfl | rfl <;> rfl
  induction lexemes generalizing text with
  | nil => exact hblank hl
  | cons w lexemes ih =>
    obtain ⟨blanks, rest, hblanks, rfl, hrest⟩ := hl
    intro b hb
    rw [List.mem_append, List.mem_append] at hb
    rcases hb with (hb | hb) | hb
    · exact hblank hblanks b hb
    · exact h w List.mem_cons_self b hb
    · exact ih hrest (fun w hw => h w (List.mem_cons_of_mem _ hw)) b hb

theorem takeWhile_ended {tail : Bytes} (h : Ended tail) :
    tail.takeWhile (!isTerminator ·) = [] := by
  rcases h with rfl | ⟨b, rest, rfl, rfl | rfl | rfl | rfl⟩ <;> rfl

/-- The tokens before the end of an expression are those of its derivation. -/
theorem Derivation.exists_scan {s : Symbol} (d : Derivation s) {text tail : Bytes}
    (hl : Layout d.lexemes text) (ht : Ended tail) :
    ∃ ts, d.Spelled ts ∧ Token.scan (text ++ tail) = ts := by
  have htake : (text ++ tail).takeWhile (!isTerminator ·) = text := by
    rw [List.takeWhile_append_of_pos, takeWhile_ended ht, List.append_nil]
    intro b hb
    rw [isTerminator_layout hl d.isTerminator_lexeme b hb]
    rfl
  have hnil : startsWithDigit [] = false := rfl
  obtain ⟨ts, hts, hscan⟩ := d.exists_spelled hl hnil
  refine ⟨ts, hts, ?_⟩
  unfold Scans at hscan
  rw [List.append_nil] at hscan
  rw [Token.scan, htake, hscan]
  exact List.append_nil ts

end MessageCatalog.Plural
