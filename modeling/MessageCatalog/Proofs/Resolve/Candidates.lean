import MessageCatalog.Proofs.Translator.Session

/-!
Which catalog is loaded: the languages that are tried, in order and each once, the first of them that
has a file, and what becomes of that file. Nothing but this file and the checksum of its language
decides the outcome, and an error ends the search.
-/
namespace MessageCatalog

namespace Catalog

section Consulted

variable {files files' : Files} {p : Path} (hstatus : files'.status p = files.status p)
  (hread : files'.read p = files.read p)
include hstatus hread

theorem fetch_congr : fetch files' p = fetch files p := by
  rw [fetch, fetch, hstatus, hread]

theorem load_congr : load files' p = load files p := by
  rw [load, load, fetch_congr hstatus hread]

theorem loadVerified_congr (expected : String) :
    loadVerified files' p expected = loadVerified files p expected := by
  rw [loadVerified, loadVerified, fetch_congr hstatus hread]

end Consulted

section Errors

variable {files : Files} {p : Path} {languages : List String}

theorem fetch_ne_noCatalog : fetch files p ≠ .error (.noCatalog languages) := by
  refine bind_ne (mapError_ne nofun) fun status => ?_
  dsimp only
  by_cases hmin : status.size < minSize
  · rw [if_pos hmin]
    nofun
  · rw [if_neg hmin]
    split_ifs
    · nofun
    · exact mapError_ne nofun

theorem load_ne_noCatalog : (load files p).value ≠ .error (.noCatalog languages) := by
  unfold load
  split
  · rename_i error herror
    exact fun h => fetch_ne_noCatalog (herror.trans (congrArg _ (Except.error.inj h)))
  · exact mapError_ne nofun

theorem loadVerified_ne_noCatalog (expected : String) :
    (loadVerified files p expected).value ≠ .error (.noCatalog languages) := by
  unfold loadVerified
  split
  · nofun
  · split
    · rename_i error herror
      exact fun h => fetch_ne_noCatalog (herror.trans (congrArg _ (Except.error.inj h)))
    · dsimp only
      split_ifs
      · exact mapError_ne nofun
      · nofun

end Errors

end Catalog

namespace Config

section Loop

variable {found : List String} {id : String}

theorem eraseDups_append_mem (hmem : id ∈ found) (rest : List String) :
    (found ++ id :: rest).eraseDups = (found ++ rest).eraseDups := by
  have hremove : (id :: rest).removeAll found = rest.removeAll found := by
    rw [List.cons_removeAll, List.contains_iff_mem.mpr hmem]
    rfl
  rw [List.eraseDups_append, List.eraseDups_append, hremove]

theorem eraseDups_append_new (hmem : id ∉ found) (hfound : found.eraseDups = found) :
    (found ++ [id]).eraseDups = found ++ [id] := by
  have hremove : [id].removeAll found = [id] := by
    rw [List.cons_removeAll]
    simp [hmem]
  rw [List.eraseDups_append, hfound, hremove]
  rfl

/-- A loop that adds what is new keeps the first occurrence of everything but the empty text. -/
theorem foldl_addCandidate (ids : List String) (hfound : found.eraseDups = found) :
    ids.foldl addCandidate found = (found ++ ids.filter (· ≠ "")).eraseDups := by
  induction ids generalizing found with
  | nil => rw [List.foldl_nil, List.filter_nil, List.append_nil, hfound]
  | cons id rest ih =>
    rw [List.foldl_cons]
    by_cases hempty : id = ""
    · have hstep : addCandidate found id = found := by simp [addCandidate, hempty]
      rw [hstep, ih hfound, List.filter_cons_of_neg (by simpa using hempty)]
    · rw [List.filter_cons_of_pos (by simpa using hempty)]
      by_cases hmem : id ∈ found
      · have hstep : addCandidate found id = found := by simp [addCandidate, hmem]
        rw [hstep, ih hfound, eraseDups_append_mem hmem]
      · have hstep : addCandidate found id = found ++ [id] := by
          simp [addCandidate, hempty, hmem]
        rw [hstep, ih (eraseDups_append_new hmem hfound), List.append_assoc,
          List.singleton_append]

end Loop

variable (config : Config)

/-- The identifiers of the wanted languages, each followed by what stands before its specifiers, and
of the fallback. -/
def named (preferred : List String) : List String :=
  ((if config.languages = [] then preferred else config.languages).flatMap fun id =>
      [Language.normalize id, Language.base (Language.normalize id)]) ++
    (config.fallback.map Language.normalize).toList

theorem candidates_eq (preferred : List String) :
    config.candidates preferred = ((config.named preferred).filter (· ≠ "")).eraseDups := by
  have hwanted : (if config.languages.isEmpty then preferred else config.languages) =
      if config.languages = [] then preferred else config.languages := by
    cases config.languages <;> rfl
  have hnil : ([] : List String).eraseDups = [] := rfl
  have hloop := foldl_addCandidate (config.named preferred) hnil
  rw [List.nil_append, named, List.foldl_append, List.foldl_flatMap] at hloop
  rw [named, ← hloop, candidates, hwanted]
  simp only [List.foldl_cons, List.foldl_nil]
  cases config.fallback with
  | none => simp only [Option.map_none, Option.toList_none, List.foldl_nil]
  | some given => simp only [Option.map_some, Option.toList_some, List.foldl_cons, List.foldl_nil]

section Search

variable (files : Files) (base : Path)

theorem firstFile_eq (languages : List String) :
    (config.firstFile files base languages).value =
      (languages.find? fun language => files.isFile (config.catalogPath base language)).map
        fun language => ⟨language, config.catalogPath base language⟩ := by
  induction languages with
  | nil => rfl
  | cons language rest ih =>
    simp only [firstFile]
    split_ifs with h
    · rw [List.find?_cons_of_pos (by exact h)]
      rfl
    · rw [List.find?_cons_of_neg (by exact h)]
      exact ih

theorem firstFile_eq_some_iff (languages : List String) (resolved : Resolved) :
    (config.firstFile files base languages).value = some resolved ↔
      ∃ before after, languages = before ++ resolved.language :: after ∧
        resolved.path = config.catalogPath base resolved.language ∧
        files.isFile resolved.path = true ∧
        ∀ other ∈ before, files.isFile (config.catalogPath base other) = false := by
  rw [firstFile_eq, Option.map_eq_some_iff]
  constructor
  · rintro ⟨language, hfind, rfl⟩
    obtain ⟨hfile, before, after, hsplit, hbefore⟩ := List.find?_eq_some_iff_append.mp hfind
    exact ⟨before, after, hsplit, rfl, hfile, by simpa using hbefore⟩
  · rintro ⟨before, after, hsplit, hpath, hfile, hbefore⟩
    rw [hpath] at hfile
    refine ⟨resolved.language, List.find?_eq_some_iff_append.mpr
      ⟨hfile, before, after, hsplit, by simpa using hbefore⟩, ?_⟩
    rw [← hpath]

theorem firstFile_eq_none_iff (languages : List String) :
    (config.firstFile files base languages).value = none ↔
      ∀ language ∈ languages, files.isFile (config.catalogPath base language) = false := by
  rw [firstFile_eq, Option.map_eq_none_iff, List.find?_eq_none]
  simp only [Bool.not_eq_true]

end Search

section Resolved

variable {config} {files files' : Files} {resolved : Resolved}

/-- Of the files only the one that was found counts, and of the checksums that of its language. -/
theorem loadResolved_congr {config' : Config}
    (hstatus : files'.status resolved.path = files.status resolved.path)
    (hread : files'.read resolved.path = files.read resolved.path)
    (hchecksum : config'.checksums.lookup resolved.language =
      config.checksums.lookup resolved.language) :
    config'.loadResolved files' resolved = config.loadResolved files resolved := by
  rw [loadResolved, loadResolved, hchecksum]
  cases config.checksums.lookup resolved.language with
  | none => exact Catalog.load_congr hstatus hread
  | some expected => exact Catalog.loadVerified_congr hstatus hread expected

theorem loadResolved_ne_noCatalog {languages : List String} :
    (config.loadResolved files resolved).value ≠ .error (.noCatalog languages) := by
  unfold loadResolved
  split
  · exact Catalog.loadVerified_ne_noCatalog _
  · exact Catalog.load_ne_noCatalog

end Resolved

end Config

namespace Translator

section Outcome

variable (t : Translator) {config : Config} {files : Files} {base : Path}
  {preferred : List String}

theorem loadPreferred_of_none (h : (config.resolve files base preferred).value = none) :
    (t.loadPreferred files config base preferred).value =
      (t, .error (.noCatalog (config.candidates preferred))) := by
  simp only [loadPreferred, h]

theorem loadPreferred_of_some {resolved : Resolved}
    (h : (config.resolve files base preferred).value = some resolved) :
    (t.loadPreferred files config base preferred).value =
      match (config.loadResolved files resolved).value with
      | .ok c => (⟨some c⟩, .ok resolved.language)
      | .error e => (t, .error e) := by
  have hadopt : ∀ loaded : Logged (Except LoadError Catalog),
      ((t.adopt resolved.path loaded).value.1,
          (t.adopt resolved.path loaded).value.2.map fun _ => resolved.language) =
        match loaded.value with
        | .ok c => (⟨some c⟩, .ok resolved.language)
        | .error e => (t, .error e) := by
    intro loaded
    unfold adopt
    cases loaded.value with
    | ok c => rfl
    | error e => rfl
  simp only [loadPreferred, h]
  unfold Config.loadResolved
  cases config.checksums.lookup resolved.language with
  | none => exact hadopt _
  | some expected => exact hadopt _

theorem loadPreferred_eq_noCatalog_iff (languages : List String) :
    (t.loadPreferred files config base preferred).value.2 = .error (.noCatalog languages) ↔
      (config.resolve files base preferred).value = none ∧
        languages = config.candidates preferred := by
  cases hfound : (config.resolve files base preferred).value with
  | none =>
    rw [t.loadPreferred_of_none hfound]
    simp [eq_comm]
  | some resolved =>
    rw [t.loadPreferred_of_some hfound]
    have hother : (config.loadResolved files resolved).value ≠ .error (.noCatalog languages) :=
      Config.loadResolved_ne_noCatalog
    cases hloaded : (config.loadResolved files resolved).value with
    | ok c => simp
    | error e =>
      rw [hloaded] at hother
      simpa using fun h => hother (congrArg _ h)

end Outcome

/-- The catalog that is loaded is that of the first candidate, of all that are derived from the wanted
languages and the fallback, whose catalog is a file. Without such a file the error names all
candidates; with one, nothing else than its status, its contents and the checksum of this candidate
matters, and the error of a catalog that is rejected is the answer. -/
theorem loadPreferred_first (t : Translator) (config : Config) (files : Files) (base : Path)
    (preferred : List String) :
    let tried := config.candidates preferred
    let found := (config.resolve files base preferred).value
    let change := (t.loadPreferred files config base preferred).value
    tried = ((config.named preferred).filter (· ≠ "")).eraseDups ∧
      (∀ resolved, found = some resolved ↔
        ∃ before after, tried = before ++ resolved.language :: after ∧
          resolved.path =
            Path.join (config.directory base) (resolved.language ++ "." ++ config.extension) ∧
          files.isFile resolved.path = true ∧
          ∀ other ∈ before, files.isFile (config.catalogPath base other) = false) ∧
      (found = none ↔
        ∀ language ∈ tried, files.isFile (config.catalogPath base language) = false) ∧
      (∀ languages, change.2 = .error (.noCatalog languages) ↔ found = none ∧ languages = tried) ∧
      (found = none → change.1 = t) ∧
      ∀ resolved, found = some resolved →
        (∀ c, (config.loadResolved files resolved).value = .ok c →
          change = (⟨some c⟩, .ok resolved.language)) ∧
        (∀ e, (config.loadResolved files resolved).value = .error e → change = (t, .error e)) ∧
        ∀ (config' : Config) (files' : Files) (base' : Path) (preferred' : List String),
          (config'.resolve files' base' preferred').value = some resolved →
          files'.status resolved.path = files.status resolved.path →
          files'.read resolved.path = files.read resolved.path →
          config'.checksums.lookup resolved.language =
            config.checksums.lookup resolved.language →
          (t.loadPreferred files' config' base' preferred').value = change := by
  intro tried found change
  refine ⟨config.candidates_eq preferred, config.firstFile_eq_some_iff files base tried,
    config.firstFile_eq_none_iff files base tried, t.loadPreferred_eq_noCatalog_iff, ?_, ?_⟩
  · intro hfound
    exact congrArg Prod.fst (t.loadPreferred_of_none hfound)
  · intro resolved hfound
    have hchange : change = _ := t.loadPreferred_of_some hfound
    refine ⟨?_, ?_, ?_⟩
    · intro c hc
      rw [hchange, hc]
    · intro e he
      rw [hchange, he]
    · intro config' files' base' preferred' hfound' hstatus hread hchecksum
      rw [hchange, t.loadPreferred_of_some hfound',
        Config.loadResolved_congr hstatus hread hchecksum]

/-- Files that are too small for a catalog, for a language and for the fallback. -/
def smallFiles : Files where
  status p := if p = "i18n/pt.mo" ∨ p = "i18n/en.mo" then .ok ⟨.file, 4⟩ else .error .notFound
  read _ := .ok ⟨#[1, 2, 3, 4]⟩

/-- The first file found is refused, and the one of the fallback is not tried. -/
theorem loadPreferred_smallFiles :
    let config : Config := { fallback := some "EN" }
    config.candidates ["pt_BR.UTF-8", "PT@euro"] = ["pt-br", "pt", "en"] ∧
      (config.resolve smallFiles "" ["pt_BR.UTF-8", "PT@euro"]).value =
        some ⟨"pt", "i18n/pt.mo"⟩ ∧
      (new.loadPreferred smallFiles config "" ["pt_BR.UTF-8", "PT@euro"]).value =
        (new, .error (.catalog (.tooSmall 4))) := by
  intro config
  obtain ⟨htried, hfound, -, -, -, hchange⟩ :=
    loadPreferred_first new config smallFiles "" ["pt_BR.UTF-8", "PT@euro"]
  have htried' : config.candidates ["pt_BR.UTF-8", "PT@euro"] = ["pt-br", "pt", "en"] := by
    rw [htried]
    decide +kernel
  have hresolved := (hfound ⟨"pt", "i18n/pt.mo"⟩).mpr
    ⟨["pt-br"], ["en"], htried', by decide +kernel, by decide +kernel, by decide +kernel⟩
  have hrejected : (config.loadResolved smallFiles ⟨"pt", "i18n/pt.mo"⟩).value =
      .error (.catalog (.tooSmall 4)) := rfl
  exact ⟨htried', hresolved, (hchange _ hresolved).2.1 _ hrejected⟩

end Translator

end MessageCatalog
