import Mathlib.Data.List.Basic
import Mathlib.Tactic.Common
import MessageCatalog.Files.Access

/-!
The components of a path: where it starts, and its steps from there. Joining a path to a directory
appends its steps, unless the path has a start of its own.
-/
namespace MessageCatalog.Path

/-- A start, at the root or where the program is, or a step, up or down. -/
inductive Component
  | root
  | current
  | parent
  | name (s : String)
deriving DecidableEq, Repr

/-- The step that a part between slashes stands for; an empty part and a dot stand for none. -/
def step? : List Char → Option Component
  | [] | ['.'] => none
  | ['.', '.'] => some .parent
  | part => some (.name (String.ofList part))

def steps (s : List Char) : List Component := (s.splitOn '/').filterMap step?

/-- The start of a path. A dot counts as one where nothing stands before it. -/
def start (s : List Char) : List Component :=
  if s.head? = some '/' then [.root]
  else if s.takeWhile (· ≠ '/') = ['.'] then [.current]
  else []

def components (p : Path) : List Component := start p.toList ++ steps p.toList

/-- A path goes on from a directory when it takes more steps from there, none of them up. -/
def Below (directory p : Path) : Prop :=
  ∃ more, components p = components directory ++ more ∧ .parent ∉ more ∧ .root ∉ more

@[simp] theorem steps_nil : steps [] = [] := rfl

theorem steps_append (s t : List Char) : steps (s ++ '/' :: t) = steps s ++ steps t := by
  rw [steps, List.splitOn_append_cons_self, List.filterMap_append]
  rfl

theorem start_append {s : List Char} (hs : s ≠ []) (t : List Char) :
    start (s ++ '/' :: t) = start s := by
  have hhead : (s ++ '/' :: t).head? = s.head? := List.head?_append_of_ne_nil s hs
  have htake : (s ++ '/' :: t).takeWhile (· ≠ '/') = s.takeWhile (· ≠ '/') := by
    rw [List.takeWhile_append]
    split_ifs with h
    · rw [List.takeWhile_cons_of_neg (by simp), List.append_nil]
      exact ((List.takeWhile_prefix _).eq_of_length h).symm
    · rfl
  rw [start, hhead, htake]
  rfl

theorem step?_ne_root (part : List Char) : step? part ≠ some .root := by
  unfold step?
  split <;> nofun

theorem root_notMem_steps (s : List Char) : .root ∉ steps s := by
  intro h
  obtain ⟨part, -, hpart⟩ := List.mem_filterMap.mp h
  exact step?_ne_root part hpart

theorem step?_eq_parent_iff {part : List Char} : step? part = some .parent ↔ part = ['.', '.'] := by
  constructor
  · intro h
    unfold step? at h
    split at h
    · cases h
    · cases h
    · rfl
    · cases h
  · rintro rfl
    rfl

theorem start_eq_nil_iff {s : List Char} :
    start s = [] ↔ s.head? ≠ some '/' ∧ s.takeWhile (· ≠ '/') ≠ ['.'] := by
  unfold start
  split_ifs with hroot hdot
  · exact ⟨nofun, fun h => absurd hroot h.1⟩
  · exact ⟨nofun, fun h => absurd hdot h.2⟩
  · exact ⟨fun _ => ⟨hroot, hdot⟩, fun _ => rfl⟩

theorem isAbsolute_iff {p : Path} : isAbsolute p = true ↔ p.toList.head? = some '/' := by
  rw [isAbsolute, beq_iff_eq]

theorem join_of_isAbsolute {d p : Path} (hp : isAbsolute p = true) : join d p = p := by
  rw [join, hp, Bool.true_or, if_pos rfl]

/-- A path without a start of its own is joined by its steps. -/
theorem components_join {d p : Path} (hp : start p.toList = []) :
    components (join d p) = components d ++ steps p.toList := by
  have hrelative : isAbsolute p = false :=
    Bool.eq_false_iff.mpr fun h => (start_eq_nil_iff.mp hp).1 (isAbsolute_iff.mp h)
  unfold join
  rw [hrelative, Bool.false_or]
  by_cases hd : d.isEmpty
  · obtain rfl : d = "" := String.isEmpty_iff.mp hd
    rw [if_pos hd, components, hp]
    rfl
  · have hne : d.toList ≠ [] := by
      simpa using hd
    rw [if_neg hd]
    split_ifs with hslash
    · -- The slash at the end of the directory is the one between the two.
      rw [beq_iff_eq] at hslash
      obtain ⟨s, hs⟩ := List.getLast?_eq_some_iff.mp hslash
      have hstart : start (s ++ '/' :: p.toList) = start (s ++ ['/']) := by
        cases s with
        | nil => rfl
        | cons c s =>
          rw [start_append (List.cons_ne_nil c s), start_append (List.cons_ne_nil c s)]
      rw [components, components, String.toList_append, hs, List.append_assoc,
        List.singleton_append, hstart, steps_append, steps_append, steps_nil, List.append_nil,
        List.append_assoc]
    · have hjoin : (d ++ "/" ++ p).toList = d.toList ++ '/' :: p.toList := by simp
      rw [components, components, hjoin, start_append hne, steps_append, List.append_assoc]

end MessageCatalog.Path
