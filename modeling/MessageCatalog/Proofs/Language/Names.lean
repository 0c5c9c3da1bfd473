import MessageCatalog.Language
import MessageCatalog.Proofs.Bytes
import MessageCatalog.Proofs.Text.Basic

/-!
Names of languages. The codes ascend, so that binary search finds the language of every code and
nothing else; and what follows a specifier in an identifier has no part in its name.
-/
namespace MessageCatalog.Language

theorem known_ascending : known.Pairwise fun a b => utf8 a.code < utf8 b.code := by
  decide

section Search

variable {code : String} {language : Language} {i : ℕ}

theorem known_getElem_lt {j : ℕ} (hij : i < j) (hj : j < known.length) :
    utf8 known[i].code < utf8 known[j].code :=
  List.pairwise_iff_getElem.mp known_ascending i j (hij.trans hj) hj hij

theorem ofCode?_getElem (hi : i < known.length) : ofCode? known[i].code = some known[i] := by
  have hbelow : ∀ j ≤ i, known[j]?.any (utf8 ·.code ≤ utf8 known[i].code) = true := by
    intro j hj
    have hlength : j < known.length := by omega
    rw [List.getElem?_eq_getElem hlength, Option.any_some, decide_eq_true_eq]
    rcases Nat.lt_or_eq_of_le hj with hlt | rfl
    · exact List.le_of_lt (known_getElem_lt hlt hi)
    · exact List.le_refl _
  have habove : ∀ j, i < j → j < known.length →
      known[j]?.any (utf8 ·.code ≤ utf8 known[i].code) = false := by
    intro j hij hj
    rw [List.getElem?_eq_getElem hj, Option.any_some, decide_eq_false_iff_not, List.not_le]
    exact known_getElem_lt hij hj
  rw [ofCode?, lastNotAbove_eq hi hbelow habove, List.getElem?_eq_getElem hi]
  exact Option.filter_some_pos (by simp)

theorem ofCode?_eq_some_iff :
    ofCode? code = some language ↔ language ∈ known ∧ language.code = code := by
  constructor
  · intro h
    obtain ⟨hget, hcode⟩ := Option.filter_eq_some_iff.mp h
    exact ⟨List.mem_of_getElem? hget, of_decide_eq_true hcode⟩
  · rintro ⟨hmem, rfl⟩
    obtain ⟨i, hi, rfl⟩ := List.mem_iff_getElem.mp hmem
    exact ofCode?_getElem hi

end Search

section Stems

variable {id name : String} {stem rest : List Char}

theorem name?_eq_some_iff : name? id = some name ↔
    ∃ language ∈ known, language.name = name ∧ language.code = lower (base (Text.trim id)) := by
  unfold name?
  dsimp only
  split_ifs with hempty
  · -- No code is empty.
    have hcodes : ∀ language ∈ known, language.code ≠ lower "" := by decide
    rw [String.isEmpty_iff] at hempty
    refine iff_of_false nofun ?_
    rintro ⟨language, hmem, -, hcode⟩
    rw [hempty] at hcode
    exact hcodes language hmem hcode
  · simp only [Option.map_eq_some_iff, ofCode?_eq_some_iff, and_comm, and_left_comm]

theorem toList_lower (s : String) : (lower s).toList = s.toList.map Char.toLower :=
  String.toList_ofList

theorem base_eq (hid : id.toList = stem ++ rest) (hstem : ∀ c ∈ stem, isSpecifier c = false)
    (hrest : ∀ c ∈ rest.head?, isSpecifier c = true) : base id = String.ofList stem := by
  rw [base, hid, Text.takeWhile_run (by simpa using hstem) (by simpa using hrest)]

theorem exists_base (id : String) : ∃ rest, id.toList = (base id).toList ++ rest ∧
    (∀ c ∈ (base id).toList, isSpecifier c = false) ∧ ∀ c ∈ rest.head?, isSpecifier c = true := by
  rw [base, String.toList_ofList]
  refine ⟨id.toList.dropWhile (!isSpecifier ·), List.takeWhile_append_dropWhile.symm, ?_, ?_⟩
  · intro c hc
    simpa using List.mem_takeWhile_imp hc
  · intro c hc
    have hstop := List.head?_dropWhile_not (!isSpecifier ·) id.toList
    rw [hc] at hstop
    simpa using hstop

theorem isBlank_of_isSpecifier {c : Char} (h : isSpecifier c = true) : Text.isBlank c = false := by
  simp only [isSpecifier, Bool.or_eq_true, beq_iff_eq] at h
  rcases h with ((rfl | rfl) | rfl) | rfl <;> rfl

theorem base_trim_append {separator : Char} {suffix : List Char}
    (hstem : ∀ c ∈ stem, isSpecifier c = false) (htrimmed : Text.Trimmed stem)
    (hseparator : isSpecifier separator = true) :
    base (Text.trim (String.ofList (stem ++ separator :: suffix))) = String.ofList stem := by
  have hblank := isBlank_of_isSpecifier hseparator
  have hfirst : ∀ c ∈ (stem ++ [separator]).head?, Text.isBlank c = false := by
    cases stem with
    | nil => simpa using hblank
    | cons c stem => exact htrimmed.1
  obtain ⟨rest, hrest⟩ := Text.exists_trimChars_append (t := suffix) hfirst hblank
  have hid : (Text.trim (String.ofList (stem ++ separator :: suffix))).toList =
      stem ++ separator :: rest := by
    rw [Text.toList_trim, String.toList_ofList, hrest]
  exact base_eq hid hstem (by simpa using hseparator)

theorem base_trim (hstem : ∀ c ∈ stem, isSpecifier c = false) (htrimmed : Text.Trimmed stem) :
    base (Text.trim (String.ofList stem)) = String.ofList stem := by
  have hid : (Text.trim (String.ofList stem)).toList = stem ++ [] := by
    rw [Text.toList_trim, String.toList_ofList, htrimmed.trimChars_eq, List.append_nil]
  exact base_eq hid hstem nofun

end Stems

/-- The name of an identifier is that of the language whose code is, but for the case of its letters,
what stands before the first specifier between the blanks; there is no name where there is no such
language. So a specifier and what follows it change nothing. -/
theorem name?_stem :
    (∀ id, ∃ stem rest : List Char, (Text.trim id).toList = stem ++ rest ∧
      (∀ c ∈ stem, isSpecifier c = false) ∧ (∀ c ∈ rest.head?, isSpecifier c = true) ∧
      (∀ name, name? id = some name ↔ ∃ language ∈ known,
        language.name = name ∧ language.code.toList = stem.map Char.toLower) ∧
      (name? id = none ↔ ∀ language ∈ known, language.code.toList ≠ stem.map Char.toLower)) ∧
    ∀ (stem : List Char) (separator : Char) (suffix : List Char),
      (∀ c ∈ stem, isSpecifier c = false) → Text.Trimmed stem → isSpecifier separator = true →
      name? (String.ofList (stem ++ separator :: suffix)) = name? (String.ofList stem) := by
  constructor
  · intro id
    obtain ⟨rest, hid, hstem, hrest⟩ := exists_base (Text.trim id)
    have hsome : ∀ name, name? id = some name ↔ ∃ language ∈ known, language.name = name ∧
        language.code.toList = (base (Text.trim id)).toList.map Char.toLower := by
      intro name
      simp only [name?_eq_some_iff, ← toList_lower, String.toList_inj]
    refine ⟨_, rest, hid, hstem, hrest, hsome, ?_⟩
    constructor
    · intro hnone language hmem hcode
      have hname := (hsome language.name).mpr ⟨language, hmem, rfl, hcode⟩
      rw [hnone] at hname
      cases hname
    · intro hnot
      rw [Option.eq_none_iff_forall_ne_some]
      intro name hname
      obtain ⟨language, hmem, -, hcode⟩ := (hsome name).mp hname
      exact hnot language hmem hcode
  · intro stem separator suffix hstem htrimmed hseparator
    unfold name?
    rw [base_trim_append hstem htrimmed hseparator, base_trim hstem htrimmed]

/-- Capitals, a suffix of more specifiers, and blanks at the end. -/
theorem name?_stem_variant :
    ((∀ c ∈ ['S', 'r'], isSpecifier c = false) ∧ Text.Trimmed ['S', 'r'] ∧
      isSpecifier '_' = true) ∧
    name? "Sr_RS.UTF-8@latin \u00a0" = some "Srpski" := by
  have hstem : ∀ c ∈ ['S', 'r'], isSpecifier c = false := by simp [isSpecifier]
  have htrimmed : Text.Trimmed ['S', 'r'] := by decide
  have hseparator : isSpecifier '_' = true := by decide
  have hname := name?_stem.2 ['S', 'r'] '_' "RS.UTF-8@latin \u00a0".toList hstem htrimmed hseparator
  refine ⟨⟨hstem, htrimmed, hseparator⟩, hname.trans ?_⟩
  decide +kernel

end MessageCatalog.Language
