import MessageCatalog.Command.Run
import MessageCatalog.Proofs.Except
import MessageCatalog.Proofs.Text.Decimal

/-!
The arguments of a look-up: flags with a value each, in any order and any number. What is read
depends on the values of each flag alone, in their order. The last ones count, but all counts have
to be integers.
-/
namespace MessageCatalog.Command

inductive LookupFlag
  | catalog
  | key
  | plural
  | count
deriving DecidableEq, Repr

def LookupFlag.name : LookupFlag → String
  | catalog => "--catalog"
  | key => "--key"
  | plural => "--plural"
  | count => "--count"

/-- The arguments in which each flag is followed by its value. -/
def arguments (uses : List (LookupFlag × String)) : List String :=
  uses.flatMap fun use => [use.1.name, use.2]

def valuesOf (flag : LookupFlag) (uses : List (LookupFlag × String)) : List String :=
  (uses.filter (·.1 = flag)).map (·.2)

def IsInt64 (text : String) (n : Int64) : Prop := Text.Numeral text.toList n.toInt

def readNumber (name value : String) : Except UsageError Int64 :=
  match Text.readInt64? value.toList with
  | none => .error (.notInteger name value)
  | some n => .ok n

def readCounts (values : List String) : Except UsageError (List Int64) :=
  values.mapM (readNumber LookupFlag.count.name)

/-- The options after the uses of the flags, the counts having been read. -/
def LookupOptions.after (options : LookupOptions) (uses : List (LookupFlag × String))
    (counts : List Int64) : LookupOptions where
  catalog := (valuesOf .catalog uses).getLast?.or options.catalog
  key := (valuesOf .key uses).getLast?.or options.key
  plural := (valuesOf .plural uses).getLast?.or options.plural
  count := counts.getLast?.or options.count

section Scan

variable {flag other : LookupFlag} {value : String} {uses : List (LookupFlag × String)}
  {rest : List String} {options : LookupOptions}

@[simp] theorem valuesOf_cons_self :
    valuesOf flag ((flag, value) :: uses) = value :: valuesOf flag uses := by
  simp [valuesOf]

@[simp] theorem valuesOf_cons_of_ne (h : other ≠ flag) :
    valuesOf flag ((other, value) :: uses) = valuesOf flag uses := by
  simp [valuesOf, h]

theorem scan_text {α : Type} {flag? : String → Option (Flag α)} {name : String}
    {set : String → α → α} (h : flag? name = some (.text set)) (options : α) :
    scan flag? options (name :: value :: rest) = scan flag? (set value options) rest := by
  rw [scan.eq_def]
  simp only [h]

theorem scan_number {α : Type} {flag? : String → Option (Flag α)} {name : String}
    {set : Int64 → α → α} (h : flag? name = some (.number set)) (options : α) :
    scan flag? options (name :: value :: rest) =
      (readNumber name value).bind fun n => scan flag? (set n options) rest := by
  rw [scan.eq_def, readNumber]
  simp only [h]
  cases Text.readInt64? value.toList with
  | none => rfl
  | some n => rfl

theorem arguments_cons : arguments ((flag, value) :: uses) = flag.name :: value :: arguments uses :=
  rfl

theorem getLast?_cons_or {α : Type} (a : α) (s : List α) (o : Option α) :
    (a :: s).getLast?.or o = s.getLast?.or (some a) := by
  rw [List.getLast?_cons, Option.some_or]
  cases s.getLast? <;> rfl

/-- A flag is read with its value, whatever this is, and the last use of a flag counts. -/
theorem scan_arguments (options : LookupOptions) (uses : List (LookupFlag × String)) :
    scan LookupOptions.flag? options (arguments uses) =
      (readCounts (valuesOf .count uses)).map (options.after uses) := by
  induction uses generalizing options with
  | nil => rfl
  | cons use uses ih =>
    obtain ⟨flag, value⟩ := use
    have htext {set : String → LookupOptions → LookupOptions}
        (hset : LookupOptions.flag? flag.name = some (.text set)) (hflag : flag ≠ .count)
        (hafter : ∀ counts, options.after ((flag, value) :: uses) counts =
          (set value options).after uses counts) :
        scan LookupOptions.flag? options (arguments ((flag, value) :: uses)) =
          (readCounts (valuesOf .count ((flag, value) :: uses))).map
            (options.after ((flag, value) :: uses)) := by
      rw [arguments_cons, scan_text hset, ih, valuesOf_cons_of_ne hflag, funext hafter]
    cases flag with
    | catalog =>
      exact htext rfl (by decide) fun _ => by simp [LookupOptions.after, getLast?_cons_or]
    | key => exact htext rfl (by decide) fun _ => by simp [LookupOptions.after, getLast?_cons_or]
    | plural => exact htext rfl (by decide) fun _ => by simp [LookupOptions.after, getLast?_cons_or]
    | count =>
      have hafter (n : Int64) (counts : List Int64) :
          options.after ((.count, value) :: uses) (n :: counts) =
            { options with count := some n }.after uses counts := by
        simp [LookupOptions.after, getLast?_cons_or]
      rw [arguments_cons, scan_number rfl, valuesOf_cons_self, readCounts, List.mapM_cons]
      cases readNumber LookupFlag.count.name value with
      | error e => rfl
      | ok n =>
        refine (ih { options with count := some n }).trans ?_
        rw [readCounts]
        cases (valuesOf .count uses).mapM (readNumber LookupFlag.count.name) with
        | error e => rfl
        | ok counts => exact congrArg Except.ok (hafter n counts).symm

end Scan

section Counts

variable {values : List String} {counts : List Int64}

theorem readNumber_eq_ok_iff {name value : String} {n : Int64} :
    readNumber name value = .ok n ↔ IsInt64 value n := by
  rw [IsInt64, ← Text.readInt64?_eq_some_iff, readNumber]
  cases Text.readInt64? value.toList with
  | none => exact iff_of_false nofun nofun
  | some m => simp

theorem readCounts_eq_ok_iff :
    readCounts values = .ok counts ↔ List.Forall₂ IsInt64 values counts := by
  rw [readCounts, mapM_eq_ok_iff]
  simp only [readNumber_eq_ok_iff]

theorem exists_readCounts_iff :
    (∃ counts, readCounts values = .ok counts) ↔ ∀ value ∈ values, ∃ n, IsInt64 value n := by
  unfold readCounts
  rw [exists_mapM_iff]
  simp only [readNumber_eq_ok_iff]

theorem rel_getLast? (h : List.Forall₂ IsInt64 values counts) :
    Option.Rel IsInt64 values.getLast? counts.getLast? := by
  have hreverse := List.forall₂_reverse_iff.mpr h
  rw [← List.head?_reverse, ← List.head?_reverse]
  generalize values.reverse = s, counts.reverse = t at hreverse ⊢
  cases hreverse with
  | nil => exact .none
  | cons hlast _ => exact .some hlast

end Counts

theorem required_eq_ok_iff {α : Type} {o : Option α} {a : α} : required o = .ok a ↔ o = some a := by
  cases o with
  | none => exact iff_of_false nofun nofun
  | some b => simp [required]

section Read

variable {uses others : List (LookupFlag × String)} {command : Command}

/-- The options that the values of the flags make together. -/
structure Asks (uses : List (LookupFlag × String)) (counts : List Int64) (catalog key : String)
    (counted : Option (String × Int64)) : Prop where
  read_counts : readCounts (valuesOf .count uses) = .ok counts
  last_catalog : (valuesOf .catalog uses).getLast? = some catalog
  last_key : (valuesOf .key uses).getLast? = some key
  last_plural : (valuesOf .plural uses).getLast? = counted.map (·.1)
  last_count : counts.getLast? = counted.map (·.2)

theorem readLookup_eq_ok_iff : readLookup (arguments uses) = .ok command ↔
    ∃ counts catalog key counted, Asks uses counts catalog key counted ∧
      command = .lookup catalog key counted := by
  rw [readLookup, scan_arguments]
  constructor
  · intro h
    obtain ⟨options, hoptions, h⟩ := bind_eq_ok_iff.mp h
    obtain ⟨catalog, hcatalog, h⟩ := bind_eq_ok_iff.mp h
    obtain ⟨key, hkey, h⟩ := bind_eq_ok_iff.mp h
    cases hcounts : readCounts (valuesOf .count uses) with
    | error e =>
      rw [hcounts] at hoptions
      cases hoptions
    | ok counts =>
      rw [hcounts] at hoptions
      obtain rfl := Except.ok.inj hoptions
      simp only [LookupOptions.after, Option.or_none, required_eq_ok_iff] at hcatalog hkey h
      split at h
      · rename_i other count hplural hcount
        obtain rfl := Except.ok.inj h
        exact ⟨counts, catalog, key, some (other, count),
          ⟨hcounts, hcatalog, hkey, hplural, hcount⟩, rfl⟩
      · rename_i hplural hcount
        obtain rfl := Except.ok.inj h
        exact ⟨counts, catalog, key, none, ⟨hcounts, hcatalog, hkey, hplural, hcount⟩, rfl⟩
      · cases h
  · rintro ⟨counts, catalog, key, counted, h, rfl⟩
    rw [h.read_counts]
    refine bind_eq_ok_iff.mpr ⟨_, rfl, bind_eq_ok_iff.mpr ⟨catalog, ?_, bind_eq_ok_iff.mpr
      ⟨key, ?_, ?_⟩⟩⟩
    · simp only [required_eq_ok_iff, LookupOptions.after, Option.or_none, h.last_catalog]
    · simp only [required_eq_ok_iff, LookupOptions.after, Option.or_none, h.last_key]
    · simp only [LookupOptions.after, Option.or_none, h.last_plural, h.last_count]
      cases counted <;> rfl

/-- The options can be read if all counts are integers and the flags occur that are needed. -/
theorem exists_asks_iff : (∃ counts catalog key counted, Asks uses counts catalog key counted) ↔
    (∀ value ∈ valuesOf .count uses, ∃ n, IsInt64 value n) ∧ valuesOf .catalog uses ≠ [] ∧
      valuesOf .key uses ≠ [] ∧ (valuesOf .plural uses = [] ↔ valuesOf .count uses = []) := by
  rw [← exists_readCounts_iff]
  constructor
  · rintro ⟨counts, catalog, key, counted, h⟩
    have hlength := (readCounts_eq_ok_iff.mp h.read_counts).length_eq
    have hcounts : valuesOf .count uses = [] ↔ counts = [] := by
      rw [← List.length_eq_zero_iff, hlength, List.length_eq_zero_iff]
    refine ⟨⟨counts, h.read_counts⟩, ?_, ?_, ?_⟩
    · exact List.ne_nil_of_mem (List.mem_of_getLast? h.last_catalog)
    · exact List.ne_nil_of_mem (List.mem_of_getLast? h.last_key)
    · rw [hcounts, ← List.getLast?_eq_none_iff, ← List.getLast?_eq_none_iff, h.last_plural,
        h.last_count, Option.map_eq_none_iff, Option.map_eq_none_iff]
  · rintro ⟨⟨counts, hcounts⟩, hcatalog, hkey, hpaired⟩
    have hcatalog := List.getLast?_eq_some_getLast hcatalog
    have hkey := List.getLast?_eq_some_getLast hkey
    have hforall := readCounts_eq_ok_iff.mp hcounts
    by_cases hnone : valuesOf .count uses = []
    · obtain rfl : counts = [] := List.forall₂_nil_left_iff.mp (hnone ▸ hforall)
      exact ⟨[], _, _, none, hcounts, hcatalog, hkey,
        List.getLast?_eq_none_iff.mpr (hpaired.mpr hnone), rfl⟩
    · have hplural := List.getLast?_eq_some_getLast (mt hpaired.mp hnone)
      have hsome : counts ≠ [] := fun h => hnone (List.forall₂_nil_right_iff.mp (h ▸ hforall))
      exact ⟨counts, _, _, some (_, _), hcounts, hcatalog, hkey, hplural,
        List.getLast?_eq_some_getLast hsome⟩

theorem readLookup_congr (h : ∀ flag, valuesOf flag others = valuesOf flag uses) :
    readLookup (arguments others) = readLookup (arguments uses) := by
  have hafter : LookupOptions.after {} others = LookupOptions.after {} uses := by
    funext counts
    rw [LookupOptions.after, LookupOptions.after, h, h, h]
  rw [readLookup, readLookup, scan_arguments, scan_arguments, h, hafter]

theorem runArguments_lookup_error {args : List String} {error : UsageError} (files : Files)
    (env : Environment) (h : readLookup args = .error error) :
    runArguments files env ("lookup" :: args) = .error (.usage error) := by
  rw [runArguments, read, h]
  rfl

/-- Each flag stands with its value in `uses`, in any order and any number. The arguments are read
if and only if every count is an integer, a catalog and a key are given, and a plural form exactly
with a count. The last value of each flag is read, so only the order among values of one flag
matters. All else is wrong usage, with one and the same error on all files. -/
theorem readLookup_arguments (uses : List (LookupFlag × String)) :
    ((∃ command, readLookup (arguments uses) = .ok command) ↔
      (∀ value ∈ valuesOf .count uses, ∃ n, IsInt64 value n) ∧ valuesOf .catalog uses ≠ [] ∧
        valuesOf .key uses ≠ [] ∧ (valuesOf .plural uses = [] ↔ valuesOf .count uses = [])) ∧
    (∀ command, readLookup (arguments uses) = .ok command →
      ∃ catalog key counted, command = .lookup catalog key counted ∧
        (valuesOf .catalog uses).getLast? = some catalog ∧
        (valuesOf .key uses).getLast? = some key ∧
        (valuesOf .plural uses).getLast? = counted.map (·.1) ∧
        Option.Rel IsInt64 (valuesOf .count uses).getLast? (counted.map (·.2))) ∧
    (∀ others, (∀ flag, valuesOf flag others = valuesOf flag uses) →
      readLookup (arguments others) = readLookup (arguments uses)) ∧
    ((¬∃ command, readLookup (arguments uses) = .ok command) →
      ∃ error, readLookup (arguments uses) = .error error ∧
        ∀ files env, runArguments files env ("lookup" :: arguments uses) =
          .error (.usage error)) := by
  refine ⟨?_, ?_, fun others => readLookup_congr, ?_⟩
  · rw [← exists_asks_iff]
    constructor
    · rintro ⟨command, h⟩
      obtain ⟨counts, catalog, key, counted, hasks, -⟩ := readLookup_eq_ok_iff.mp h
      exact ⟨counts, catalog, key, counted, hasks⟩
    · rintro ⟨counts, catalog, key, counted, hasks⟩
      exact ⟨_, readLookup_eq_ok_iff.mpr ⟨counts, catalog, key, counted, hasks, rfl⟩⟩
  · intro command h
    obtain ⟨counts, catalog, key, counted, hasks, hcommand⟩ := readLookup_eq_ok_iff.mp h
    refine ⟨catalog, key, counted, hcommand, hasks.last_catalog, hasks.last_key,
      hasks.last_plural, ?_⟩
    rw [← hasks.last_count]
    exact rel_getLast? (readCounts_eq_ok_iff.mp hasks.read_counts)
  · intro h
    cases hread : readLookup (arguments uses) with
    | ok command => exact absurd ⟨command, hread⟩ h
    | error error =>
      exact ⟨error, rfl, fun files env => runArguments_lookup_error files env hread⟩

/-- Values that are names of flags, empty or repeated, and a count that is not an integer. -/
theorem readLookup_arguments_repeated :
    IsInt64 "-9223372036854775808" Int64.minValue ∧
    readLookup (arguments [(.key, "--key"), (.count, "+07"), (.plural, "--count"), (.catalog, ""),
      (.key, "Apple"), (.count, "-9223372036854775808")]) =
      .ok (.lookup "" "Apple" (some ("--count", Int64.minValue))) ∧
    ∃ error, readLookup (arguments [(.count, "1e3"), (.catalog, "a.mo"), (.key, "Apple"),
        (.plural, "Apples"), (.count, "3")]) = .error error ∧
      ∀ files env, runArguments files env ("lookup" :: arguments [(.count, "1e3"),
        (.catalog, "a.mo"), (.key, "Apple"), (.plural, "Apples"), (.count, "3")]) =
          .error (.usage error) := by
  have hread : readLookup (arguments [(.count, "+07"), (.catalog, ""), (.key, "--key"),
      (.key, "Apple"), (.count, "-9223372036854775808"), (.plural, "--count")]) =
      .ok (.lookup "" "Apple" (some ("--count", Int64.minValue))) := by rfl
  refine ⟨?_, ?_, ?_⟩
  · obtain ⟨catalog, key, counted, hcommand, -, -, -, hcount⟩ :=
      (readLookup_arguments _).2.1 _ hread
    cases hcommand
    cases hcount with
    | some h => exact h
  · exact ((readLookup_arguments _).2.2.1 _ fun flag => by cases flag <;> rfl).trans hread
  · refine (readLookup_arguments _).2.2.2 ?_
    rintro ⟨command, h⟩
    cases h

end Read

end MessageCatalog.Command
