import Mathlib.Algebra.Ring.Nat
import Mathlib.Computability.StateTransition
import MessageCatalog.Proofs.Plural.Scanning

/-!
A machine that reads a plural expression byte by byte. Its cursor goes over the text, and what is
begun and not finished lies on a stack. Over a limit it goes on with zeros, but is exhausted. Where
the expression ends it does not know: a terminator is a byte like any other that it cannot take.
-/
namespace MessageCatalog.Plural

open StateTransition

/-- The operators of a level, in the order they are looked for: a longer one before its part. -/
def tried : ℕ → List Operator
  | 0 => [.multiply, .divide, .remainder]
  | 1 => [.add, .subtract]
  | 2 => [.equal, .notEqual, .lessEqual, .greaterEqual, .less, .greater]
  | 3 => [.and]
  | 4 => [.or]
  | _ => []

def operatorAhead? (level : ℕ) (ahead : Bytes) : Option Operator :=
  (tried level).find? fun op => (ascii op.symbol).isPrefixOf ahead

theorem mem_tried_iff {level : ℕ} {op : Operator} : op ∈ tried level ↔ op.level = level := by
  match level with
  | 0 | 1 | 2 | 3 | 4 => cases op <;> decide
  | level + 5 => cases op <;> simp [tried, Operator.level]

def startsWithBlank (s : Bytes) : Bool := s.head?.any fun b => b == 32 || b == 9

def signed (negative : Bool) (value : ℕ) : Int64 :=
  if negative then -literal value else literal value

namespace Machine

/-- What the machine is at. -/
inductive Task
  | whole
  | operand (level : ℕ)
  | digits (negative : Bool) (value : ℕ)
  | done (e : Expr)

/-- What an expression is read for. -/
inductive Frame
  | group
  | chain (level : ℕ)
  | join (level : ℕ) (op : Operator) (left : Expr)
  | test
  | yes (test : Expr)
  | no (test yes : Expr)

/-- All but the cursor. -/
structure Control where
  task : Task
  frames : List Frame
  depth : ℕ
  nodes : ℕ
  exhausted : Bool

namespace Control

def give (c : Control) (e : Expr) (frames : List Frame) : Control :=
  { c with task := .done e, frames := frames }

/-- Hands on a new operator or condition, or zero when there are too many. -/
def build (c : Control) (e : Expr) (frames : List Frame) : Control :=
  if c.nodes < maxNodes then { c.give e frames with nodes := c.nodes + 1 }
  else { c.give (.constant 0) frames with nodes := c.nodes + 1, exhausted := true }

def leave (c : Control) : Control := { c with depth := c.depth - 1 }

/-- Whether blanks are passed over before anything else is done. -/
def skips (c : Control) : Bool :=
  match c.task, c.frames with
  | .operand 0, _ | .done _, [] => true
  | .done _, .group :: _ | .done _, .chain _ :: _ => true
  | .done _, .test :: _ | .done _, .yes _ :: _ => true
  | _, _ => false

/-- The start of a whole expression, unless there are too many around it. -/
def enter (c : Control) : Control :=
  if c.depth < maxDepth then
    { c with task := .operand Operator.levels, frames := .test :: c.frames, depth := c.depth + 1 }
  else { c.give (.constant 0) c.frames with exhausted := true }

/-- An operand without operators; zero, taking nothing, where there is none. -/
def atom (c : Control) (ahead : Bytes) : ℕ × Control :=
  if (ascii ['(']).isPrefixOf ahead then
    (1, { c with task := .whole, frames := .group :: c.frames })
  else if (ascii ['n']).isPrefixOf ahead then (1, c.give .count c.frames)
  else if startsWithDigit ahead then (0, { c with task := .digits false 0 })
  else if (ascii ['-']).isPrefixOf ahead && startsWithDigit (ahead.drop 1) then
    (1, { c with task := .digits true 0 })
  else (0, c.give (.constant 0) c.frames)

/-- One digit more, or the number that the digits before spell. -/
def digit (c : Control) (negative : Bool) (value : ℕ) (ahead : Bytes) : ℕ × Control :=
  match ahead.head?.filter isDigit with
  | some b => (1, { c with task := .digits negative (addDigit maxConstant value b) })
  | none => (0, c.give (.constant (signed negative value)) c.frames)

/-- What an expression is used for. -/
def resume (c : Control) (ahead : Bytes) (e : Expr) (frames : List Frame) : Frame → ℕ × Control
  | .group =>
      if (ascii [')']).isPrefixOf ahead then (1, c.give e frames)
      else (0, c.give (.constant 0) frames)
  | .chain level =>
      match operatorAhead? level ahead with
      | some op =>
          (op.symbol.length,
            { c with task := .operand level, frames := .join level op e :: frames })
      | none => (0, c.give e frames)
  | .join level op left => (0, c.build (.binary op left e) (.chain level :: frames))
  | .test =>
      if (ascii ['?']).isPrefixOf ahead then
        (1, { c with task := .whole, frames := .yes e :: frames })
      else (0, (c.give e frames).leave)
  | .yes test =>
      if (ascii [':']).isPrefixOf ahead then
        (1, { c with task := .whole, frames := .no test e :: frames })
      else (0, (c.give test frames).leave)
  | .no test yes => (0, (c.build (.conditional test yes e) frames).leave)

/-- How many of the bytes ahead are taken, and what the machine is at then, if anything. -/
def act (c : Control) (ahead : Bytes) : Option (ℕ × Control) :=
  if c.skips && startsWithBlank ahead then some (1, c)
  else match c.task, c.frames with
    | .whole, _ => some (0, c.enter)
    | .operand (k + 1), frames =>
        some (0, { c with task := .operand k, frames := .chain k :: frames })
    | .operand 0, _ => some (c.atom ahead)
    | .digits negative value, _ => some (c.digit negative value ahead)
    | .done e, frame :: frames => some (c.resume ahead e frames frame)
    | .done _, [] => none

end Control

structure State where
  position : ℕ
  control : Control

def step (s : Bytes) (st : State) : Option State :=
  (st.control.act (s.drop st.position)).map fun next => ⟨st.position + next.1, next.2⟩

def start : State := ⟨0, ⟨.whole, [], 0, 0, false⟩⟩

/-- The expression of a machine that has stopped, if it is not exhausted and has come to the end of
the text or to a terminator. -/
def State.verdict (s : Bytes) (st : State) : Option Expr :=
  match st.control.task with
  | .done e =>
      if !st.control.exhausted && (s.drop st.position).head?.all isTerminator then some e else none
  | _ => none

/-- The work that is left where no more bytes are taken. -/
@[simp] def Task.weight : Task → ℕ
  | .whole => 14
  | .operand level => 2 * level + 2
  | .digits _ _ => 1
  | .done _ => 0

@[simp] def Frame.weight : Frame → ℕ
  | .join _ _ _ => 2
  | _ => 1

def Control.weight (c : Control) : ℕ := c.task.weight + (c.frames.map Frame.weight).sum

/-- What every step keeps to: no more bytes are taken than are ahead, there is less to do unless
bytes are taken, and an exhausted machine remains so. -/
structure Moves (c : Control) (ahead : Bytes) (next : ℕ × Control) : Prop where
  taken_le : next.1 ≤ ahead.length
  weight_lt : next.2.weight < c.weight + 16 * next.1
  exhausted : c.exhausted = true → next.2.exhausted = true

theorem length_pos_of_startsWithBlank {s : Bytes} (h : startsWithBlank s = true) :
    1 ≤ s.length := by
  cases s with
  | nil => cases h
  | cons b s => simp

theorem symbol_length_pos (op : Operator) : 0 < op.symbol.length := by
  cases op <;> decide

namespace Control

variable {c c' : Control} {ahead w : Bytes} {e : Expr} {frames : List Frame} {frame : Frame}

theorem moves_stay (hw : c'.weight < c.weight) (hx : c.exhausted = true → c'.exhausted = true) :
    Moves c ahead (0, c') :=
  ⟨Nat.zero_le _, hw, hx⟩

theorem moves_take (h : w.isPrefixOf ahead = true) (hw : c'.weight < c.weight + 16 * w.length)
    (hx : c.exhausted = true → c'.exhausted = true) : Moves c ahead (w.length, c') :=
  ⟨(List.isPrefixOf_iff_prefix.mp h).length_le, hw, hx⟩

@[simp] theorem weight_mk (task : Task) (frames : List Frame) (depth nodes : ℕ) (exhausted : Bool) :
    weight ⟨task, frames, depth, nodes, exhausted⟩ =
      task.weight + (frames.map Frame.weight).sum :=
  rfl

@[simp] theorem weight_give : (c.give e frames).weight = (frames.map Frame.weight).sum := by
  simp [give]

@[simp] theorem weight_build : (c.build e frames).weight = (frames.map Frame.weight).sum := by
  unfold build
  split <;> simp [give]

@[simp] theorem weight_leave : c.leave.weight = c.weight := rfl

theorem weight_of_task {task : Task} (h : c.task = task) :
    c.weight = task.weight + (c.frames.map Frame.weight).sum := by
  rw [weight, h]

theorem exhausted_build (h : c.exhausted = true) : (c.build e frames).exhausted = true := by
  unfold build
  split
  · exact h
  · rfl

theorem moves_enter (h : c.task = .whole) : Moves c ahead (0, c.enter) := by
  have hc := weight_of_task h
  unfold enter
  split
  · refine moves_stay ?_ fun hx => hx
    simp [hc, Operator.levels]
    omega
  · refine moves_stay ?_ fun _ => rfl
    simp [hc, give]

theorem moves_atom (h : c.task = .operand 0) : Moves c ahead (c.atom ahead) := by
  have hc := weight_of_task h
  unfold atom
  split_ifs with hgroup hcount hdigit hminus
  · refine moves_take hgroup ?_ fun hx => hx
    simp [hc]
    omega
  · refine moves_take hcount ?_ fun hx => hx
    simp [hc]
    omega
  · refine moves_stay ?_ fun hx => hx
    simp [hc]
  · rw [Bool.and_eq_true] at hminus
    refine moves_take hminus.1 ?_ fun hx => hx
    simp [hc]
    omega
  · refine moves_stay ?_ fun hx => hx
    simp [hc]

theorem moves_digit {negative : Bool} {value : ℕ} (h : c.task = .digits negative value) :
    Moves c ahead (c.digit negative value ahead) := by
  have hc := weight_of_task h
  unfold digit
  split
  · rename_i b hb
    obtain ⟨hhead, -⟩ := Option.filter_eq_some_iff.mp hb
    obtain ⟨rest, rfl⟩ := List.head?_eq_some_iff.mp hhead
    have htake : [b].isPrefixOf (b :: rest) = true := by simp
    refine moves_take htake ?_ fun hx => hx
    simp [hc]
  · refine moves_stay ?_ fun hx => hx
    simp [hc]

theorem moves_resume (ht : c.task = .done e) (hf : c.frames = frame :: frames) :
    Moves c ahead (c.resume ahead e frames frame) := by
  have hc : c.weight = frame.weight + (frames.map Frame.weight).sum := by
    simp [weight_of_task ht, hf]
  unfold resume
  cases frame with
  | group =>
    dsimp only
    split_ifs with h
    · refine moves_take h ?_ fun hx => hx
      simp [hc]
      omega
    · refine moves_stay ?_ fun hx => hx
      simp [hc]
  | chain level =>
    dsimp only
    cases hop : operatorAhead? level ahead with
    | none =>
      refine moves_stay ?_ fun hx => hx
      simp [hc]
    | some op =>
      have hlevel : level < 5 := by
        have hmem := mem_tried_iff.mp (List.mem_of_find?_eq_some hop)
        exact hmem ▸ op.level_lt_levels
      have hlen : (ascii op.symbol).length = op.symbol.length := List.length_map _
      have hpos := symbol_length_pos op
      dsimp only
      have htake : (ascii op.symbol).isPrefixOf ahead = true := by
        simpa using List.find?_some hop
      rw [← hlen]
      refine moves_take htake ?_ fun hx => hx
      simp [hc, hlen]
      omega
  | join level op left =>
    refine moves_stay ?_ exhausted_build
    simp [hc]
  | test =>
    dsimp only
    split_ifs with h
    · refine moves_take h ?_ fun hx => hx
      simp [hc]
      omega
    · refine moves_stay ?_ fun hx => hx
      simp [hc]
  | yes test =>
    dsimp only
    split_ifs with h
    · refine moves_take h ?_ fun hx => hx
      simp [hc]
      omega
    · refine moves_stay ?_ fun hx => hx
      simp [hc]
  | no test yes =>
    refine moves_stay ?_ exhausted_build
    simp [hc]

theorem moves_act {next : ℕ × Control} (h : c.act ahead = some next) : Moves c ahead next := by
  unfold act at h
  split_ifs at h with hblank
  · obtain rfl := Option.some.inj h
    rw [Bool.and_eq_true] at hblank
    exact ⟨length_pos_of_startsWithBlank hblank.2, by simp, fun hx => hx⟩
  · split at h
    · rename_i ht
      obtain rfl := Option.some.inj h
      exact moves_enter ht
    · rename_i level ht
      obtain rfl := Option.some.inj h
      have hc := weight_of_task ht
      refine moves_stay ?_ fun hx => hx
      simp [hc]
      omega
    · rename_i ht
      obtain rfl := Option.some.inj h
      exact moves_atom ht
    · rename_i ht
      obtain rfl := Option.some.inj h
      exact moves_digit ht
    · rename_i ht hf
      obtain rfl := Option.some.inj h
      exact moves_resume ht hf
    · cases h

end Control

section Runs

variable {s : Bytes} {st st' : State}

theorem exists_of_step (h : step s st = some st') : ∃ taken,
    st'.position = st.position + taken ∧
      Moves st.control (s.drop st.position) (taken, st'.control) := by
  obtain ⟨⟨taken, c⟩, hact, rfl⟩ := Option.map_eq_some_iff.mp h
  exact ⟨taken, rfl, Control.moves_act hact⟩

theorem position_le_of_reaches (h : Reaches (step s) st st') : st.position ≤ st'.position := by
  induction h with
  | refl => exact Nat.le_refl _
  | tail _ hstep ih =>
    obtain ⟨taken, htaken, -⟩ := exists_of_step hstep
    omega

theorem position_le_length (h : Reaches (step s) st st') (hst : st.position ≤ s.length) :
    st'.position ≤ s.length := by
  induction h with
  | refl => exact hst
  | tail _ hstep ih =>
    obtain ⟨taken, htaken, hmoves⟩ := exists_of_step hstep
    have hle := hmoves.taken_le
    rw [List.length_drop] at hle
    omega

theorem exhausted_of_reaches (h : Reaches (step s) st st') (hx : st.control.exhausted = true) :
    st'.control.exhausted = true := by
  induction h with
  | refl => exact hx
  | tail _ hstep ih =>
    obtain ⟨_, -, hmoves⟩ := exists_of_step hstep
    exact hmoves.exhausted ih

/-- A bound of the steps that are left. -/
def State.potential (s : Bytes) (st : State) : ℕ :=
  16 * (s.length - st.position) + st.control.weight

theorem potential_lt (h : step s st = some st') : st'.potential s < st.potential s := by
  obtain ⟨taken, htaken, hmoves⟩ := exists_of_step h
  have hle := hmoves.taken_le
  have hlt := hmoves.weight_lt
  rw [List.length_drop] at hle
  dsimp only at hle hlt
  unfold State.potential
  omega

/-- The machine stops, wherever it is started. -/
theorem exists_mem_eval (s : Bytes) (st : State) : ∃ last, last ∈ eval (step s) st := by
  induction hn : st.potential s using Nat.strongRecOn generalizing st with
  | ind n ih =>
    cases hstep : step s st with
    | none => exact ⟨st, mem_eval.mpr ⟨.refl, hstep⟩⟩
    | some next =>
      obtain ⟨last, hlast⟩ := ih _ (hn ▸ potential_lt hstep) next rfl
      have heval := reaches_eval (Relation.ReflTransGen.single (Option.mem_def.mpr hstep))
      exact ⟨last, heval ▸ hlast⟩

end Runs

end Machine

end MessageCatalog.Plural
