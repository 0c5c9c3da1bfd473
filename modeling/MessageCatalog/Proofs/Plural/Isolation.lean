import Mathlib.Data.List.TakeWhile
import MessageCatalog.Proofs.Plural.Simulation

/-!
Nothing from the first terminator on is read. A terminator ahead is to the machine what the end of
the text is, so it makes the same steps over the part before it, and comes to the same answer.
-/
namespace MessageCatalog.Plural

open StateTransition

def unterminated (s : Bytes) : Bytes := s.takeWhile (!isTerminator ·)

theorem isTerminator_of_mem_unterminated {s : Bytes} {b : UInt8} (h : b ∈ unterminated s) :
    isTerminator b = false := by
  simpa using List.mem_takeWhile_imp h

theorem ended_iff {tail : Bytes} :
    Ended tail ↔ ∀ b, tail.head? = some b → isTerminator b = true := by
  cases tail with
  | nil => simp [Ended]
  | cons b rest => simp [Ended, isTerminator, or_assoc]

theorem exists_unterminated_append (s : Bytes) :
    ∃ tail, s = unterminated s ++ tail ∧ Ended tail := by
  refine ⟨s.dropWhile (!isTerminator ·), List.takeWhile_append_dropWhile.symm, ended_iff.mpr ?_⟩
  intro b hb
  have hnot := List.head?_dropWhile_not (!isTerminator ·) s
  rw [hb] at hnot
  simpa using hnot

@[simp] theorem unterminated_unterminated (s : Bytes) :
    unterminated (unterminated s) = unterminated s :=
  List.takeWhile_idem

section Ahead

variable {w ahead tail : Bytes}

/-- What follows the part before the first terminator passes no test that a terminator fails. -/
theorem any_head?_append (ht : Ended tail) {p : UInt8 → Bool}
    (hp : ∀ b, p b = true → isTerminator b = false) :
    (ahead ++ tail).head?.any p = ahead.head?.any p := by
  cases ahead with
  | cons b ahead => rfl
  | nil =>
    rw [List.nil_append, List.head?_nil, Option.any_none]
    cases tail with
    | nil => rfl
    | cons b tail =>
      have hend := ended_iff.mp ht b rfl
      by_contra hany
      have hb : p b = true := by simpa using hany
      rw [hp b hb] at hend
      cases hend

theorem startsWithDigit_append (ht : Ended tail) :
    startsWithDigit (ahead ++ tail) = startsWithDigit ahead :=
  any_head?_append ht fun _ => Derivation.isTerminator_digit

theorem startsWithBlank_append (ht : Ended tail) :
    startsWithBlank (ahead ++ tail) = startsWithBlank ahead := by
  apply any_head?_append ht
  intro b hb
  have hblank : b = 32 ∨ b = 9 := by simpa using hb
  rcases hblank with rfl | rfl <;> rfl

theorem isPrefixOf_append (ht : Ended tail) (hw : ∀ b ∈ w, isTerminator b = false) :
    w.isPrefixOf (ahead ++ tail) = w.isPrefixOf ahead := by
  induction w generalizing ahead with
  | nil => simp
  | cons b w ih =>
    cases ahead with
    | cons c ahead =>
      have hrest : w.isPrefixOf (ahead ++ tail) = w.isPrefixOf ahead :=
        ih fun b hb => hw b (List.mem_cons_of_mem _ hb)
      simp [List.isPrefixOf, hrest]
    | nil =>
      have hb := hw b List.mem_cons_self
      cases hstarts : (b :: w).isPrefixOf tail with
      | false => exact hstarts
      | true =>
        obtain ⟨rest, rfl⟩ := List.isPrefixOf_iff_prefix.mp hstarts
        rw [ended_iff.mp ht b rfl] at hb
        cases hb

theorem operatorAhead?_append (ht : Ended tail) (level : ℕ) :
    operatorAhead? level (ahead ++ tail) = operatorAhead? level ahead := by
  unfold operatorAhead?
  congr 1
  funext op
  exact isPrefixOf_append ht (Derivation.isTerminator_symbol op)

end Ahead

namespace Machine

namespace Control

variable {ahead tail : Bytes}

theorem starts_append (ch : Char) (ht : Ended tail) (hch : isTerminator ch.toUInt8 = false) :
    (ascii [ch]).isPrefixOf (ahead ++ tail) = (ascii [ch]).isPrefixOf ahead :=
  isPrefixOf_append ht (List.forall_mem_singleton.mpr hch)

/-- The byte after a sign is looked at only where there is a sign. -/
theorem negative_append (ht : Ended tail) :
    ((ascii ['-']).isPrefixOf (ahead ++ tail) && startsWithDigit ((ahead ++ tail).drop 1)) =
      ((ascii ['-']).isPrefixOf ahead && startsWithDigit (ahead.drop 1)) := by
  rw [starts_append '-' ht rfl]
  cases ahead with
  | nil => rfl
  | cons b ahead => simp [startsWithDigit_append ht]

theorem atom_append (c : Control) (ht : Ended tail) : c.atom (ahead ++ tail) = c.atom ahead := by
  unfold atom
  rw [starts_append '(' ht rfl, starts_append 'n' ht rfl, startsWithDigit_append ht,
    negative_append ht]

theorem digit_append (c : Control) (ht : Ended tail) (negative : Bool) (value : ℕ) :
    c.digit negative value (ahead ++ tail) = c.digit negative value ahead := by
  cases ahead with
  | cons b ahead => rfl
  | nil =>
    have hd : startsWithDigit ([] ++ tail) = startsWithDigit [] := startsWithDigit_append ht
    rw [digit_of_not hd, digit_of_not rfl]

theorem resume_append (c : Control) (ht : Ended tail) (e : Expr) (frames : List Frame)
    (frame : Frame) : c.resume (ahead ++ tail) e frames frame = c.resume ahead e frames frame := by
  unfold resume
  cases frame with
  | group => simp only [starts_append ')' ht rfl]
  | chain level => simp only [operatorAhead?_append ht]
  | test => simp only [starts_append '?' ht rfl]
  | yes test => simp only [starts_append ':' ht rfl]
  | join level op left => rfl
  | no test yes => rfl

/-- No step tells a terminator from the end of the text. -/
theorem act_append (c : Control) (ht : Ended tail) : c.act (ahead ++ tail) = c.act ahead := by
  unfold act
  simp only [startsWithBlank_append ht, atom_append c ht, digit_append c ht, resume_append c ht]

end Control

section Runs

variable {text tail : Bytes} {st st' : State}

theorem step_append (ht : Ended tail) (hst : st.position ≤ text.length) :
    step (text ++ tail) st = step text st := by
  unfold step
  rw [List.drop_append_of_le_length hst, Control.act_append _ ht]

/-- Two machines that make the same steps wherever one of them comes to make the same runs. -/
theorem reaches_congr {f g : State → Option State} (h : ∀ st', Reaches g st st' → f st' = g st') :
    Reaches f st st' ↔ Reaches g st st' := by
  constructor
  · intro hreach
    induction hreach with
    | refl => exact .refl
    | tail _ hstep ih => exact ih.tail (h _ ih ▸ hstep)
  · intro hreach
    induction hreach with
    | refl => exact .refl
    | tail hreach hstep ih => exact ih.tail ((h _ hreach).symm ▸ hstep)

theorem reaches_append (ht : Ended tail) (hst : st.position ≤ text.length) :
    Reaches (step (text ++ tail)) st st' ↔ Reaches (step text) st st' :=
  reaches_congr fun _ hreach => step_append ht (position_le_length hreach hst)

theorem verdict_append (ht : Ended tail) (hst : st.position ≤ text.length) :
    st.verdict (text ++ tail) = st.verdict text := by
  have hend : ((text ++ tail).drop st.position).head?.all isTerminator =
      ((text.drop st.position).head?.all isTerminator) := by
    rw [List.drop_append_of_le_length hst]
    cases text.drop st.position with
    | cons b rest => rfl
    | nil =>
      cases tail with
      | nil => rfl
      | cons b tail => simpa using ended_iff.mp ht b rfl
  simp only [State.verdict, hend]

theorem mem_eval_append (ht : Ended tail) {last : State} (hst : st.position ≤ text.length) :
    last ∈ eval (step (text ++ tail)) st ↔ last ∈ eval (step text) st := by
  rw [mem_eval, mem_eval, reaches_append ht hst]
  apply and_congr_right
  intro hreach
  rw [step_append ht (position_le_length hreach hst)]

end Runs

/-- The machine stops, and its answer is the expression that is read. -/
theorem exists_verdict_eq_ofBytes? (s : Bytes) :
    ∃ last, last ∈ eval (step s) start ∧ last.verdict s = Expr.ofBytes? s := by
  obtain ⟨tail, hs, ht⟩ := exists_unterminated_append s
  obtain ⟨last, hlast, hverdict⟩ := exists_verdict (s := unterminated s)
    fun _ => isTerminator_of_mem_unterminated
  have hposition := position_le_length (mem_eval.mp hlast).1 (Nat.zero_le _)
  refine ⟨last, ?_, ?_⟩
  · rw [hs]
    exact (mem_eval_append ht (Nat.zero_le _)).mpr hlast
  · calc
      last.verdict s = last.verdict (unterminated s ++ tail) := by rw [← hs]
      _ = last.verdict (unterminated s) := verdict_append ht hposition
      _ = Expr.ofBytes? s := hverdict

/-- What is read is decided by the part before the first terminator: over the whole text the machine
is in the states that it is in over this part alone, never past its end, with the same answers. -/
theorem runs_unterminated (s : Bytes) :
    Expr.ofBytes? s = Expr.ofBytes? (unterminated s) ∧
    (∀ st, Reaches (step s) start st ↔ Reaches (step (unterminated s)) start st) ∧
    (∀ st, Reaches (step s) start st → st.position ≤ (unterminated s).length ∧
      st.verdict s = st.verdict (unterminated s)) ∧
    ∃ last, last ∈ eval (step s) start ∧ last ∈ eval (step (unterminated s)) start ∧
      last.verdict s = Expr.ofBytes? s := by
  obtain ⟨tail, hs, ht⟩ := exists_unterminated_append s
  have hreaches (st : State) :
      Reaches (step s) start st ↔ Reaches (step (unterminated s)) start st := by
    conv_lhs => rw [hs]
    exact reaches_append ht (Nat.zero_le _)
  have hposition (st : State) (hst : Reaches (step s) start st) :
      st.position ≤ (unterminated s).length :=
    position_le_length ((hreaches st).mp hst) (Nat.zero_le _)
  refine ⟨?_, hreaches, fun st hst => ⟨hposition st hst, ?_⟩, ?_⟩
  · unfold Expr.ofBytes? Token.scan
    exact congrArg _ (congrArg _ (unterminated_unterminated s).symm)
  · conv_lhs => rw [hs]
    exact verdict_append ht (hposition st hst)
  · obtain ⟨last, hlast, hverdict⟩ := exists_verdict_eq_ofBytes? s
    refine ⟨last, hlast, ?_, hverdict⟩
    rw [hs] at hlast
    exact (mem_eval_append ht (Nat.zero_le _)).mp hlast

/-- The end of a line behind a sign, in a group that stays open. -/
theorem runs_unterminated_group :
    let s := ascii "(n -\n1)".toList
    Expr.ofBytes? s = Expr.ofBytes? (ascii "(n -".toList) ∧
    ∃ st, Reaches (step s) start st ∧ st.position = 1 ∧ st.position ≤ 4 ∧
      st.verdict s = st.verdict (ascii "(n -".toList) := by
  intro s
  obtain ⟨hsame, -, hinside, -⟩ := runs_unterminated s
  have hgroup : Reaches (step s) start _ :=
    .head rfl (.head rfl (.head rfl (.head rfl (.head rfl (.head rfl (.single rfl))))))
  exact ⟨hsame, _, hgroup, rfl, hinside _ hgroup⟩

end Machine

end MessageCatalog.Plural
