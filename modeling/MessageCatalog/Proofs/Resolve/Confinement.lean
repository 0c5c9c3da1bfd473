import Mathlib.Data.List.TakeWhile
import MessageCatalog.Proofs.Files.Components
import MessageCatalog.Proofs.Resolve.Candidates
import MessageCatalog.Proofs.Text.Basic

/-!
Where the catalogs of languages can be. An identifier is cut at its first dot, so the file of a
language is never found by going up from the directory of catalogs; but an identifier that starts
with a slash names a file of its own, wherever the directory is.
-/
namespace MessageCatalog

namespace Language

/-- Normal form makes no character but letters and hyphens. -/
theorem eq_of_normalized {c d : Char} (hletter : d.isLower = false) (hhyphen : d ≠ '-')
    (h : (if c = '_' then '-' else c.toLower) = d) : c = d := by
  split_ifs at h
  · exact absurd h.symm hhyphen
  · rcases Text.toLower_cases c with hsame | hlower
    · exact hsame.symm.trans h
    · rw [h, hletter] at hlower
      cases hlower

theorem dot_notMem_normalize (id : String) : '.' ∉ (normalize id).toList := by
  rw [normalize, String.toList_ofList]
  intro h
  obtain ⟨c, hc, hdot⟩ := List.mem_map.mp h
  obtain rfl := eq_of_normalized rfl (by decide) hdot
  have hkept := List.mem_takeWhile_imp hc
  simp at hkept

/-- The normal form of an identifier is absolute only if the identifier is, blanks aside. -/
theorem isAbsolute_of_normalize {id : String} (h : Path.isAbsolute (normalize id) = true) :
    Path.isAbsolute (Text.trim id) = true := by
  rw [Path.isAbsolute_iff, normalize, String.toList_ofList, List.head?_map, Option.map_eq_some_iff] at h
  obtain ⟨c, hc, hslash⟩ := h
  obtain rfl := eq_of_normalized rfl (by decide) hslash
  rw [List.head?_takeWhile] at hc
  exact Path.isAbsolute_iff.mpr (Option.filter_eq_some_iff.mp hc).1

theorem dot_notMem_base {id : String} (h : '.' ∉ id.toList) : '.' ∉ (base id).toList := by
  rw [base, String.toList_ofList]
  exact fun hdot => h ((List.takeWhile_prefix _).subset hdot)

theorem isAbsolute_of_base {id : String} (h : Path.isAbsolute (base id) = true) :
    Path.isAbsolute id = true := by
  rw [Path.isAbsolute_iff, base, String.toList_ofList, List.head?_takeWhile] at h
  exact Path.isAbsolute_iff.mpr (Option.filter_eq_some_iff.mp h).1

end Language

namespace Config

/-- The identifiers that candidates come from. -/
def requested (config : Config) (preferred : List String) : List String :=
  (if config.languages = [] then preferred else config.languages) ++ config.fallback.toList

variable {config : Config} {preferred : List String} {language : String}

theorem exists_requested (h : language ∈ config.named preferred) :
    ∃ id ∈ config.requested preferred,
      language = Language.normalize id ∨ language = Language.base (Language.normalize id) := by
  rw [named, List.mem_append] at h
  rcases h with h | h
  · obtain ⟨id, hid, hlanguage⟩ := List.mem_flatMap.mp h
    refine ⟨id, List.mem_append_left _ hid, ?_⟩
    simpa using hlanguage
  · obtain ⟨id, hid, rfl⟩ := Option.map_eq_some_iff.mp (Option.mem_toList.mp h)
    exact ⟨id, List.mem_append_right _ (Option.mem_toList.mpr hid), Or.inl rfl⟩

/-- A candidate has no dot, and is absolute only if an identifier is that it comes from. -/
theorem candidate_spec (h : language ∈ config.candidates preferred) :
    language.toList ≠ [] ∧ '.' ∉ language.toList ∧
      (Path.isAbsolute language = true →
        ∃ id ∈ config.requested preferred, Path.isAbsolute (Text.trim id) = true) := by
  rw [candidates_eq, List.mem_eraseDups, List.mem_filter] at h
  obtain ⟨hnamed, hne⟩ := h
  refine ⟨by simpa using hne, ?_⟩
  obtain ⟨id, hid, rfl | rfl⟩ := exists_requested hnamed
  · exact ⟨Language.dot_notMem_normalize id,
      fun h => ⟨id, hid, Language.isAbsolute_of_normalize h⟩⟩
  · exact ⟨Language.dot_notMem_base (Language.dot_notMem_normalize id),
      fun h => ⟨id, hid, Language.isAbsolute_of_normalize (Language.isAbsolute_of_base h)⟩⟩

end Config

namespace Path

/-- A file name with one dot and an extension after it adds the only part in which there is a dot. -/
theorem splitOn_fileName {s ext : List Char} (hs : '.' ∉ s) (hext : '/' ∉ ext) :
    ∃ parts last, (s ++ '.' :: ext).splitOn '/' = parts ++ [last ++ '.' :: ext] ∧
      ∀ part ∈ parts, '.' ∉ part := by
  induction s with
  | nil =>
    refine ⟨[], [], List.splitOn_eq_singleton ?_, nofun⟩
    simpa using hext
  | cons c s ih =>
    obtain ⟨parts, last, hsplit, hparts⟩ := ih (List.not_mem_of_not_mem_cons hs)
    rw [List.cons_append, List.splitOn_cons_eq_if_modifyHead, hsplit]
    by_cases hc : c = '/'
    · exact ⟨[] :: parts, last, if_pos (by simpa using hc), by simpa using hparts⟩
    · rw [if_neg (by simpa using hc)]
      cases parts with
      | nil => exact ⟨[], c :: last, rfl, nofun⟩
      | cons part parts =>
        refine ⟨(c :: part) :: parts, last, rfl, List.forall_mem_cons.mpr ⟨?_, ?_⟩⟩
        · rw [List.mem_cons, not_or]
          exact ⟨List.ne_of_not_mem_cons hs, hparts part List.mem_cons_self⟩
        · exact fun other hother => hparts other (List.mem_cons_of_mem part hother)

theorem start_fileName {s : List Char} (ext : List Char) (hne : s ≠ []) (hs : '.' ∉ s)
    (hslash : s.head? ≠ some '/') : start (s ++ '.' :: ext) = [] := by
  obtain ⟨c, s, rfl⟩ := List.exists_cons_of_ne_nil hne
  have hc : c ≠ '/' := by simpa using hslash
  refine start_eq_nil_iff.mpr ⟨by simpa using hc, ?_⟩
  rw [List.cons_append, List.takeWhile_cons_of_pos (by simpa using hc)]
  intro h
  exact List.ne_of_not_mem_cons hs (List.cons.inj h).1.symm

/-- Only the whole last part can be a step up. -/
theorem getLast?_steps_fileName {s ext : List Char} (hs : '.' ∉ s) (hext : '/' ∉ ext)
    (h : .parent ∈ steps (s ++ '.' :: ext)) :
    (steps (s ++ '.' :: ext)).getLast? = some .parent := by
  obtain ⟨parts, last, hsplit, hparts⟩ := splitOn_fileName hs hext
  rw [steps, hsplit, List.filterMap_append] at h ⊢
  rcases List.mem_append.mp h with h | h
  · obtain ⟨part, hpart, hup⟩ := List.mem_filterMap.mp h
    rw [step?_eq_parent_iff.mp hup] at hpart
    exact absurd List.mem_cons_self (hparts _ hpart)
  · obtain ⟨part, hpart, hup⟩ := List.mem_filterMap.mp h
    rw [List.mem_singleton.mp hpart] at hup
    rw [List.filterMap_cons_some hup, List.filterMap_nil, List.getLast?_concat]

end Path

/-- A step up leads to a directory, so a path that ends with one is never that of a file. -/
def Files.UpIsDirectory (files : Files) : Prop :=
  ∀ p, (Path.components p).getLast? = some .parent → files.isFile p = false

namespace Config

/-- The catalog of a language that is no absolute path is below the directory of catalogs. That of an
absolute one, which comes from an identifier that is absolute but for blanks before it, is where the
language says, whatever the directory is. -/
theorem resolve_below {config : Config} {files : Files} {base : Path} {preferred : List String}
    {resolved : Resolved} (hext : '/' ∉ config.extension.toList) (hfiles : files.UpIsDirectory)
    (h : (config.resolve files base preferred).value = some resolved) :
    (Path.isAbsolute resolved.language = false →
      Path.Below (config.directory base) resolved.path) ∧
    (Path.isAbsolute resolved.language = true →
      resolved.path = resolved.language ++ "." ++ config.extension ∧
        ∃ id ∈ config.requested preferred, Path.isAbsolute (Text.trim id) = true) := by
  obtain ⟨before, after, hsplit, hpath, hfile, -⟩ :=
    (config.firstFile_eq_some_iff files base _ resolved).mp h
  have hmem : resolved.language ∈ config.candidates preferred := by
    rw [hsplit]
    exact List.mem_append_right before List.mem_cons_self
  obtain ⟨hne, hdot, hrequested⟩ := candidate_spec hmem
  have hname : (resolved.language ++ "." ++ config.extension).toList =
      resolved.language.toList ++ '.' :: config.extension.toList := by
    simp
  constructor
  · intro hrelative
    have hslash : resolved.language.toList.head? ≠ some '/' :=
      fun h => Bool.eq_false_iff.mp hrelative (Path.isAbsolute_iff.mpr h)
    have hstart : Path.start (resolved.language ++ "." ++ config.extension).toList = [] := by
      rw [hname]
      exact Path.start_fileName _ hne hdot hslash
    have hjoin : Path.components resolved.path = Path.components (config.directory base) ++
        Path.steps (resolved.language ++ "." ++ config.extension).toList := by
      rw [hpath]
      exact Path.components_join hstart
    refine ⟨_, hjoin, ?_, Path.root_notMem_steps _⟩
    intro hup
    rw [hname] at hup hjoin
    have hlast := Path.getLast?_steps_fileName hdot hext hup
    rw [hfiles _ (by rw [hjoin, List.getLast?_append, hlast]; rfl)] at hfile
    cases hfile
  · intro habsolute
    refine ⟨?_, hrequested habsolute⟩
    rw [hpath]
    refine Path.join_of_isAbsolute (Path.isAbsolute_iff.mpr ?_)
    rw [hname, List.head?_append_of_ne_nil _ hne]
    exact Path.isAbsolute_iff.mp habsolute

end Config

def Files.single (path : Path) : Files where
  status p := if p = path then .ok ⟨.file, 4⟩ else .error .notFound
  read p := if p = path then .ok ⟨#[1, 2, 3, 4]⟩ else .error .notFound

theorem Files.upIsDirectory_single {path : Path}
    (h : (Path.components path).getLast? ≠ some .parent) : (single path).UpIsDirectory := by
  intro p hp
  have hne : p ≠ path := by
    rintro rfl
    exact h hp
  simp [isFile, single, hne]

namespace Config

/-- Of an identifier that goes up, what stands before the first dot is left. -/
theorem resolve_below_single :
    (('/' ∉ ({} : Config).extension.toList ∧ (Files.single "i18n/de/.mo").UpIsDirectory ∧
        (({} : Config).resolve (Files.single "i18n/de/.mo") "" ["de/../../x"]).value =
          some ⟨"de/", "i18n/de/.mo"⟩) ∧
      Path.isAbsolute "de/" = false) ∧
    Path.Below (({} : Config).directory "") "i18n/de/.mo" := by
  have hext : '/' ∉ ({} : Config).extension.toList := by decide +kernel
  have hfiles : (Files.single "i18n/de/.mo").UpIsDirectory :=
    Files.upIsDirectory_single (by decide +kernel)
  have hfound : (({} : Config).resolve (Files.single "i18n/de/.mo") "" ["de/../../x"]).value =
      some ⟨"de/", "i18n/de/.mo"⟩ := by decide +kernel
  have hrelative : Path.isAbsolute "de/" = false := by decide +kernel
  exact ⟨⟨⟨hext, hfiles, hfound⟩, hrelative⟩, (resolve_below hext hfiles hfound).1 hrelative⟩

/-- The variables of an environment whose language is an absolute path. -/
def absoluteLanguage : Environment := fun name =>
  if name = "LANG" then some "/srv/CS.UTF-8" else none

/-- A file outside the directory of catalogs is found for a language that is an absolute path. -/
theorem resolve_absoluteLanguage :
    '/' ∉ ({} : Config).extension.toList ∧ (Files.single "/srv/cs.mo").UpIsDirectory ∧
      (({} : Config).resolve (Files.single "/srv/cs.mo") ""
        (preferredLanguages absoluteLanguage)).value = some ⟨"/srv/cs", "/srv/cs.mo"⟩ ∧
      ¬Path.Below (({} : Config).directory "") "/srv/cs.mo" := by
  refine ⟨by decide +kernel, Files.upIsDirectory_single (by decide +kernel), by decide +kernel, ?_⟩
  rintro ⟨more, h, -⟩
  have hdirectory : Path.components (({} : Config).directory "") = [.name "i18n"] := by
    decide +kernel
  have hpath : Path.components "/srv/cs.mo" = [.root, .name "srv", .name "cs.mo"] := by
    decide +kernel
  rw [hdirectory, hpath] at h
  cases (List.cons.inj h).1

end Config

end MessageCatalog
