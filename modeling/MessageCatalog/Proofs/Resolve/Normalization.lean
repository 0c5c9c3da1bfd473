import MessageCatalog.Proofs.Resolve.Confinement
import MessageCatalog.Proofs.Text.Basic

/-!
Identifiers in normal form. The language of the user is brought to normal form twice on its way to
the candidates, a language of the settings once. The second time only trims, and so it changes
nothing unless a blank stands right before the charset or the variant: the cut leaves this blank at
the end.
-/
namespace MessageCatalog

namespace Language

/-- What stands before the charset and the variant. -/
def stem (id : String) : List Char :=
  (Text.trimChars id.toList).takeWhile fun c => c != '.' && c != '@'

/-- A character in normal form. -/
def plain (c : Char) : Char := if c = '_' then '-' else c.toLower

/-- No blank stands right before the charset or the variant. -/
def Settled (id : String) : Prop := ∀ c ∈ (stem id).getLast?, Text.isBlank c = false

instance (id : String) : Decidable (Settled id) := Option.decidableForallMem _

theorem toList_normalize (id : String) : (normalize id).toList = (stem id).map plain := by
  rw [normalize, String.toList_ofList, Text.toList_trim]
  rfl

section Characters

variable (c : Char)

theorem plain_plain : plain (plain c) = plain c := by
  unfold plain
  by_cases hc : c = '_'
  · rw [if_pos hc]
    rfl
  · rw [if_neg hc, Text.toLower_toLower]
    refine if_neg fun h => hc ?_
    exact eq_of_normalized rfl (by decide) ((if_neg hc).trans h)

theorem isBlank_plain : Text.isBlank (plain c) = Text.isBlank c := by
  unfold plain
  split_ifs with hc
  · rw [hc]
    rfl
  · exact Text.isBlank_toLower c

end Characters

variable {id : String}

theorem plain_of_mem_normalize {c : Char} (h : c ∈ (normalize id).toList) :
    plain c = c ∧ c ≠ '.' ∧ c ≠ '@' := by
  rw [toList_normalize] at h
  obtain ⟨d, hd, rfl⟩ := List.mem_map.mp h
  have hkept := List.mem_takeWhile_imp hd
  rw [Bool.and_eq_true, bne_iff_ne, bne_iff_ne] at hkept
  refine ⟨plain_plain d, fun hdot => hkept.1 ?_, fun hat => hkept.2 ?_⟩
  · exact eq_of_normalized rfl (by decide) hdot
  · exact eq_of_normalized rfl (by decide) hat

/-- There is no more to cut and to replace in a normal form, but blanks may have come to its end. -/
theorem normalize_normalize_eq_trim (id : String) :
    normalize (normalize id) = Text.trim (normalize id) := by
  have hplain : ∀ c ∈ Text.trimChars (normalize id).toList, plain c = c ∧ c ≠ '.' ∧ c ≠ '@' :=
    fun c hc => plain_of_mem_normalize (Text.trimChars_subset _ hc)
  have hstem : stem (normalize id) = Text.trimChars (normalize id).toList := by
    apply List.takeWhile_eq_self_iff.mpr
    intro c hc
    simp [hplain c hc]
  apply String.toList_inj.mp
  rw [toList_normalize, hstem, Text.toList_trim]
  exact (List.map_congr_left fun c hc => (hplain c hc).1).trans (List.map_id _)

theorem head?_stem : ∀ c ∈ (stem id).head?, Text.isBlank c = false := by
  intro c hc
  rw [stem, List.head?_takeWhile] at hc
  exact (Text.trimmed_trimChars _).1 c (Option.filter_eq_some_iff.mp hc).1

theorem trimmed_normalize_iff : Text.Trimmed (normalize id).toList ↔ Settled id := by
  rw [Text.Trimmed, toList_normalize, List.head?_map, List.getLast?_map]
  simp only [Option.mem_def, Option.map_eq_some_iff, forall_exists_index, and_imp,
    forall_apply_eq_imp_iff₂, isBlank_plain]
  exact and_iff_right head?_stem

theorem normalize_normalize_ne_empty (h : normalize id ≠ "") : normalize (normalize id) ≠ "" := by
  intro hempty
  rw [normalize_normalize_eq_trim, ← String.toList_inj, Text.toList_trim] at hempty
  have hchars : (stem id).map plain ≠ [] := by
    rw [← toList_normalize]
    exact mt String.toList_eq_nil_iff.mp h
  obtain ⟨c, rest, hstem⟩ := List.exists_cons_of_ne_nil (mt List.map_eq_nil_iff.mpr hchars)
  have hfirst : Text.isBlank c = false := head?_stem c (by rw [hstem]; rfl)
  have hblank := Text.trimChars_eq_nil_iff.mp hempty (plain c) (by
    rw [toList_normalize, hstem]
    exact List.mem_cons_self)
  rw [isBlank_plain, hfirst] at hblank
  cases hblank

theorem normalize_normalize_eq_self_iff :
    normalize (normalize id) = normalize id ↔ Settled id := by
  rw [normalize_normalize_eq_trim, ← String.toList_inj, Text.toList_trim,
    Text.trimChars_eq_self_iff, trimmed_normalize_iff]

end Language

namespace Config

def normalized (config : Config) : Config :=
  { config with
    languages := config.languages.map Language.normalize
    fallback := config.fallback.map Language.normalize }

theorem named_normalized {config : Config} {preferred : List String}
    (h : ∀ id ∈ config.requested preferred, Language.Settled id) :
    config.normalized.named (preferred.map Language.normalize) = config.named preferred := by
  let wanted := if config.languages = [] then preferred else config.languages
  have htwice {id : String} (hid : id ∈ config.requested preferred) :
      Language.normalize (Language.normalize id) = Language.normalize id :=
    Language.normalize_normalize_eq_self_iff.mpr (h id hid)
  have hwanted : (if config.normalized.languages = [] then preferred.map Language.normalize
      else config.normalized.languages) = wanted.map Language.normalize := by
    simp only [wanted, normalized, List.map_eq_nil_iff, apply_ite (List.map Language.normalize)]
  have hlanguages : (wanted.map Language.normalize).flatMap
        (fun id => [Language.normalize id, Language.base (Language.normalize id)]) =
      wanted.flatMap fun id => [Language.normalize id, Language.base (Language.normalize id)] := by
    rw [List.flatMap_map]
    refine List.flatMap_congr fun id hid => ?_
    rw [htwice (List.mem_append_left _ hid)]
  have hfallback : config.normalized.fallback.map Language.normalize =
      config.fallback.map Language.normalize := by
    cases hconfig : config.fallback with
    | none => simp only [normalized, hconfig, Option.map_none]
    | some id =>
      have hid : id ∈ config.requested preferred := by
        rw [requested, hconfig]
        exact List.mem_append_right _ List.mem_cons_self
      simp only [normalized, hconfig, Option.map_some, htwice hid]
  rw [named, named, hwanted, hfallback, hlanguages]

section Single

variable {config : Config} {id : String}

/-- An identifier that is wanted alone is the first to be tried, in its normal form. -/
theorem head?_candidates (h : config.languages = []) (hid : Language.normalize id ≠ "") :
    (config.candidates [id]).head? = some (Language.normalize id) := by
  rw [candidates_eq, named, if_pos h, List.flatMap_singleton, List.cons_append,
    List.filter_cons_of_pos (by simpa using hid), List.eraseDups_cons, List.head?_cons]

theorem candidates_normalize_eq_iff :
    config.candidates [Language.normalize id] = config.candidates [id] ↔
      config.languages ≠ [] ∨ Language.Settled id := by
  by_cases hlanguages : config.languages = []
  · have htwice : Language.normalize (Language.normalize id) = Language.normalize id ↔
        Language.Settled id :=
      Language.normalize_normalize_eq_self_iff
    rw [or_iff_right (not_not.mpr hlanguages), ← htwice]
    constructor
    · intro h
      by_cases hempty : Language.normalize id = ""
      · rw [hempty]
        rfl
      · -- Each normal form is the first candidate of its identifier.
        have hhead := head?_candidates hlanguages (Language.normalize_normalize_ne_empty hempty)
        rw [h, head?_candidates hlanguages hempty] at hhead
        exact (Option.some.inj hhead).symm
    · intro h
      rw [candidates_eq, candidates_eq, named, named, if_pos hlanguages, if_pos hlanguages,
        List.flatMap_singleton, List.flatMap_singleton, h]
  · rw [candidates_eq, candidates_eq, named, named, if_neg hlanguages, if_neg hlanguages]
    exact iff_of_true rfl (Or.inl hlanguages)

end Single

/-- The second normal form trims the first one, and is the first one exactly where no blank stands
right before the charset or the variant. Exactly then the candidates are those of the normal form,
for an identifier that the settings leave to the locale, and so also for any number of identifiers
in the settings. -/
theorem candidates_normalized (config : Config) (preferred : List String) (id : String) :
    (Language.normalize (Language.normalize id) = Text.trim (Language.normalize id) ∧
      (Language.normalize (Language.normalize id) = Language.normalize id ↔
        Language.Settled id)) ∧
    (config.candidates [Language.normalize id] = config.candidates [id] ↔
      config.languages ≠ [] ∨ Language.Settled id) ∧
    ((∀ other ∈ config.requested preferred, Language.Settled other) →
      config.normalized.candidates (preferred.map Language.normalize) =
        config.candidates preferred) := by
  refine ⟨⟨Language.normalize_normalize_eq_trim id, Language.normalize_normalize_eq_self_iff⟩,
    candidates_normalize_eq_iff, fun h => ?_⟩
  rw [candidates_eq, candidates_eq, named_normalized h]

/-- A locale with charset and variant, an identifier between blanks, and a fallback. -/
theorem candidates_normalized_locales :
    (∀ id ∈ ({ fallback := some "EN@x" } : Config).requested ["de_AT.UTF-8@euro", " pt_BR "],
      Language.Settled id) ∧
    ({ fallback := some "en" } : Config).candidates ["de-at", "pt-br"] =
      ["de-at", "de", "pt-br", "pt", "en"] := by
  have hsettled : ∀ id ∈ ({ fallback := some "EN@x" } : Config).requested
      ["de_AT.UTF-8@euro", " pt_BR "], Language.Settled id := by
    decide +kernel
  have hcandidates := (candidates_normalized _ _ "de_AT").2.2 hsettled
  have hnormalized :
      ({ fallback := some "EN@x" } : Config).normalized = { fallback := some "en" } := by
    decide +kernel
  have hpreferred :
      ["de_AT.UTF-8@euro", " pt_BR "].map Language.normalize = ["de-at", "pt-br"] := by
    decide +kernel
  rw [hnormalized, hpreferred] at hcandidates
  refine ⟨hsettled, hcandidates.trans ?_⟩
  decide +kernel

/-- The cut of a charset leaves the blank before it, which the next normal form trims. -/
theorem normalize_blankBeforeCharset :
    Language.normalize (Language.normalize "de .UTF-8") ≠ Language.normalize "de .UTF-8" ∧
      ({} : Config).candidates ["de .UTF-8"] = ["de "] ∧
      ({} : Config).candidates [Language.normalize "de .UTF-8"] = ["de"] := by
  decide +kernel

end Config

end MessageCatalog
