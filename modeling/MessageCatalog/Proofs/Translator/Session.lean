import MessageCatalog.Proofs.Catalog.Search
import MessageCatalog.Proofs.Translator.Query

/-!
Sessions: a translator is loaded, unloaded and asked while the files around it change. Its active
catalog is that of the last load or install that succeeded, unless it was unloaded since, and all
answers come from that catalog.
-/
namespace MessageCatalog

inductive Action
  /-- Files are written or removed, in whatever way. -/
  | change (update : Files → Files)
  | loadImage (image : ByteArray)
  | loadFile (p : Path)
  | loadFileVerified (p : Path) (expected : String)
  | loadPreferred (config : Config) (base : Path) (preferred : List String)
  | install (c : Catalog) (image : ByteArray) (h : Catalog.decode image = .ok c)
  | unload
  | ask (q : Query)

/-- The catalog of a language that was found, checked against its checksum if there is one. -/
def Config.loadResolved (config : Config) (files : Files) (resolved : Resolved) :
    Logged (Except LoadError Catalog) :=
  match config.checksums.lookup resolved.language with
  | some expected => Catalog.loadVerified files resolved.path expected
  | none => Catalog.load files resolved.path

/-- The catalog of the first language that has one. -/
def Config.loadPreferred (config : Config) (files : Files) (base : Path)
    (preferred : List String) : Except LoadError Catalog :=
  match (config.resolve files base preferred).value with
  | none => .error (.noCatalog (config.candidates preferred))
  | some resolved => (config.loadResolved files resolved).value

/-- The catalog that a load or an install has at hand, or why it has none. -/
def Action.outcome? (files : Files) : Action → Option (Except LoadError Catalog)
  | loadImage image => some ((Catalog.decode image).mapError .catalog)
  | loadFile p => some (Catalog.load files p).value
  | loadFileVerified p expected => some (Catalog.loadVerified files p expected).value
  | loadPreferred config base preferred => some (config.loadPreferred files base preferred)
  | install c _ _ => some (.ok c)
  | change _ | unload | ask _ => none

inductive Reply
  | done
  | loaded (result : Except LoadError Unit)
  | language (result : Except LoadError String)
  | answer (a : Answer)

def Reply.error? : Reply → Option LoadError
  | loaded (.error e) | language (.error e) => some e
  | _ => none

structure Session where
  files : Files
  translator : Translator

namespace Session

def fresh (files : Files) : Session := ⟨files, .new⟩

variable (s : Session)

def apply {α : Type} (change : Translator.Change α) (reply : Except LoadError α → Reply) :
    Session × Reply :=
  ({ s with translator := change.value.1 }, reply change.value.2)

def step : Action → Session × Reply
  | .change update => ({ s with files := update s.files }, .done)
  | .loadImage image => s.apply (s.translator.loadImage image) .loaded
  | .loadFile p => s.apply (s.translator.loadFile s.files p) .loaded
  | .loadFileVerified p expected =>
      s.apply (s.translator.loadFileVerified s.files p expected) .loaded
  | .loadPreferred config base preferred =>
      s.apply (s.translator.loadPreferred s.files config base preferred) .language
  | .install c _ _ => s.apply (Translator.install c) .loaded
  | .unload => ({ s with translator := s.translator.unload.value }, .done)
  | .ask q => (s, .answer (s.translator.answer q))

def run (actions : List Action) : Session := actions.foldl (fun s a => (s.step a).1) s

/-- A catalog at hand becomes active as a whole, and an error changes nothing. -/
def Takes (next : Session × Reply) : Except LoadError Catalog → Prop
  | .ok c => next.1 = { s with translator := ⟨some c⟩ } ∧ next.2.error? = none
  | .error e => next.1 = s ∧ next.2.error? = some e

theorem takes_adopt (p : Path) (loaded : Logged (Except LoadError Catalog))
    (reply : Except LoadError Unit → Reply) (hok : (reply (.ok ())).error? = none)
    (herror : ∀ e, (reply (.error e)).error? = some e) :
    s.Takes (s.apply (s.translator.adopt p loaded) reply) loaded.value := by
  unfold apply Translator.adopt
  cases loaded.value with
  | ok c => exact ⟨rfl, hok⟩
  | error e => exact ⟨rfl, herror e⟩

theorem takes_loadImage (image : ByteArray) :
    s.Takes (s.apply (s.translator.loadImage image) .loaded)
      ((Catalog.decode image).mapError .catalog) := by
  unfold apply Translator.loadImage
  cases Catalog.decode image with
  | ok c => exact ⟨rfl, rfl⟩
  | error e => exact ⟨rfl, rfl⟩

theorem takes_loadPreferred (config : Config) (base : Path) (preferred : List String) :
    s.Takes (s.apply (s.translator.loadPreferred s.files config base preferred) .language)
      (config.loadPreferred s.files base preferred) := by
  unfold apply Translator.loadPreferred Config.loadPreferred
  generalize config.resolve s.files base preferred = found
  obtain ⟨value, events⟩ := found
  cases value with
  | none => exact ⟨rfl, rfl⟩
  | some resolved =>
    have hadopt := fun loaded => s.takes_adopt resolved.path loaded
      (fun result => .language (result.map fun _ => resolved.language)) rfl fun _ => rfl
    unfold Config.loadResolved
    dsimp only
    cases config.checksums.lookup resolved.language with
    | none => exact hadopt _
    | some expected => exact hadopt _

/-- Whatever an action has at hand is taken. -/
theorem takes_step {a : Action} {result : Except LoadError Catalog}
    (h : a.outcome? s.files = some result) : s.Takes (s.step a) result := by
  cases a with
  | loadImage image =>
    cases h
    exact s.takes_loadImage image
  | loadFile p =>
    cases h
    exact s.takes_adopt p _ .loaded rfl fun _ => rfl
  | loadFileVerified p expected =>
    cases h
    exact s.takes_adopt p _ .loaded rfl fun _ => rfl
  | loadPreferred config base preferred =>
    cases h
    exact s.takes_loadPreferred config base preferred
  | install c image hc =>
    cases h
    exact ⟨rfl, rfl⟩
  | change | unload | ask => cases h

/-- No action of a run makes a catalog active or takes the active one away. -/
def Quiet (s : Session) : List Action → Prop
  | [] => True
  | a :: rest =>
      a ≠ .unload ∧ (∀ c, a.outcome? s.files ≠ some (.ok c)) ∧ Quiet (s.step a).1 rest

/-- Without an outcome, only unloading changes the translator. -/
theorem step_of_no_outcome {a : Action} (h : a.outcome? s.files = none) :
    (s.step a).2.error? = none ∧ (a ≠ .unload → (s.step a).1.translator = s.translator) := by
  cases a with
  | change update => exact ⟨rfl, fun _ => rfl⟩
  | unload => exact ⟨rfl, fun hne => absurd rfl hne⟩
  | ask q => exact ⟨rfl, fun _ => rfl⟩
  | loadImage | loadFile | loadFileVerified | loadPreferred | install => cases h

theorem step_of_error {a : Action} {e : LoadError} (h : (s.step a).2.error? = some e) :
    (s.step a).1 = s := by
  cases ho : a.outcome? s.files with
  | none =>
    rw [(s.step_of_no_outcome ho).1] at h
    cases h
  | some result =>
    have htakes := s.takes_step ho
    cases result with
    | ok c =>
      rw [htakes.2] at h
      cases h
    | error e => exact htakes.1

theorem translator_step_of_quiet {a : Action} (hu : a ≠ .unload)
    (ho : ∀ c, a.outcome? s.files ≠ some (.ok c)) :
    (s.step a).1.translator = s.translator := by
  cases h : a.outcome? s.files with
  | none => exact (s.step_of_no_outcome h).2 hu
  | some result =>
    cases result with
    | ok c => exact absurd h (ho c)
    | error e => rw [(s.takes_step h).1]

/-- One step: the active catalog is the one just made active, or the one before. -/
theorem active_step_iff (a : Action) (c : Catalog) :
    (s.step a).1.translator.active = some c ↔ a.outcome? s.files = some (.ok c) ∨
      (a ≠ .unload ∧ (∀ c', a.outcome? s.files ≠ some (.ok c')) ∧
        s.translator.active = some c) := by
  by_cases hu : a = .unload
  · subst hu
    constructor
    · intro h
      cases h
    · rintro (h | h)
      · cases h
      · exact absurd rfl h.1
  · by_cases ho : ∃ c', a.outcome? s.files = some (.ok c')
    · obtain ⟨c', hc⟩ := ho
      rw [(s.takes_step hc).1, hc]
      simp
    · rw [not_exists] at ho
      rw [s.translator_step_of_quiet hu ho]
      simp [hu, ho]

theorem run_cons (a : Action) (rest : List Action) : s.run (a :: rest) = (s.step a).1.run rest :=
  rfl

/-- Any run: the active catalog is the last one made active, or the one at the start. -/
theorem active_run_iff (actions : List Action) (c : Catalog) :
    (s.run actions).translator.active = some c ↔
      (s.Quiet actions ∧ s.translator.active = some c) ∨
        ∃ before a after, actions = before ++ a :: after ∧
          a.outcome? (s.run before).files = some (.ok c) ∧ (s.run (before ++ [a])).Quiet after := by
  induction actions generalizing s with
  | nil => simp [run, Quiet]
  | cons a rest ih =>
    -- The event is this first action, or it lies in the rest of the run.
    rw [run_cons, ih]
    constructor
    · rintro (⟨hquiet, hactive⟩ | ⟨before, b, after, rfl, hb, hquiet⟩)
      · rcases (s.active_step_iff a c).mp hactive with ha | ⟨hu, ho, hactive⟩
        · exact Or.inr ⟨[], a, rest, rfl, ha, hquiet⟩
        · exact Or.inl ⟨⟨hu, ho, hquiet⟩, hactive⟩
      · exact Or.inr ⟨a :: before, b, after, rfl, hb, hquiet⟩
    · rintro (⟨⟨hu, ho, hquiet⟩, hactive⟩ | ⟨before, b, after, hsplit, hb, hquiet⟩)
      · exact Or.inl ⟨hquiet, (s.active_step_iff a c).mpr (Or.inr ⟨hu, ho, hactive⟩)⟩
      · cases before with
        | nil =>
          obtain ⟨rfl, rfl⟩ := List.cons.inj hsplit
          exact Or.inl ⟨hquiet, (s.active_step_iff a c).mpr (Or.inl hb)⟩
        | cons x before =>
          obtain ⟨rfl, rfl⟩ := List.cons.inj hsplit
          exact Or.inr ⟨before, b, after, rfl, hb, hquiet⟩

end Session

theorem decode_of_load {files : Files} {p : Path} {c : Catalog}
    (h : (Catalog.load files p).value = .ok c) : ∃ image, Catalog.decode image = .ok c := by
  unfold Catalog.load at h
  split at h
  · cases h
  · exact ⟨_, mapError_eq_ok_iff.mp h⟩

theorem decode_of_loadVerified {files : Files} {p : Path} {expected : String} {c : Catalog}
    (h : (Catalog.loadVerified files p expected).value = .ok c) :
    ∃ image, Catalog.decode image = .ok c := by
  unfold Catalog.loadVerified at h
  split at h
  · cases h
  · split at h
    · cases h
    · dsimp only at h
      split_ifs at h
      exact ⟨_, mapError_eq_ok_iff.mp h⟩

/-- Every catalog that is made active was decoded from an image. -/
theorem Action.decode_of_outcome? {files : Files} {a : Action} {c : Catalog}
    (h : a.outcome? files = some (.ok c)) : ∃ image, Catalog.decode image = .ok c := by
  cases a with
  | loadImage image => exact ⟨image, mapError_eq_ok_iff.mp (Option.some.inj h)⟩
  | loadFile p => exact decode_of_load (Option.some.inj h)
  | loadFileVerified p expected => exact decode_of_loadVerified (Option.some.inj h)
  | loadPreferred config base preferred =>
    have h := Option.some.inj h
    unfold Config.loadPreferred at h
    split at h
    · cases h
    · unfold Config.loadResolved at h
      split at h
      · exact decode_of_loadVerified h
      · exact decode_of_load h
  | install c' image hc =>
    obtain rfl := Except.ok.inj (Option.some.inj h)
    exact ⟨image, hc⟩
  | change | unload | ask => cases h

/-- What is decoded says itself what it was decoded from. -/
theorem Catalog.decode_image {image : ByteArray} {c : Catalog} (h : Catalog.decode image = .ok c) :
    Catalog.decode c.image = .ok c := by
  rw [(Catalog.decode_eq_ok_iff.mp h).image_eq]
  exact h

/-- After any run of a fresh translator among changing files, the active catalog is that of the last
load or install that succeeded, if no unload comes after it, and there is none otherwise; a load
that fails and a question change nothing; and the active catalog is what its own image decodes to,
and gives all answers. -/
theorem Session.run_fresh (files : Files) (actions : List Action) :
    let s := (fresh files).run actions
    (∀ c, s.translator.active = some c ↔ ∃ before a after, actions = before ++ a :: after ∧
        a.outcome? ((fresh files).run before).files = some (.ok c) ∧
          ((fresh files).run (before ++ [a])).Quiet after) ∧
      (∀ a result, a.outcome? s.files = some result → s.Takes (s.step a) result) ∧
      (∀ a e, (s.step a).2.error? = some e → (s.step a).1 = s) ∧
      (∀ q, (s.step (.ask q)).1 = s) ∧
      ∀ c, s.translator.active = some c → Catalog.decode c.image = .ok c ∧
        c.rule = .ofHeader (c.lookup []) ∧ ∀ q, (s.step (.ask q)).2 = .answer (q.answer c) := by
  intro s
  have hactive : ∀ c, s.translator.active = some c ↔ ∃ before a after,
      actions = before ++ a :: after ∧
        a.outcome? ((fresh files).run before).files = some (.ok c) ∧
          ((fresh files).run (before ++ [a])).Quiet after := by
    intro c
    have hnone : (fresh files).translator.active ≠ some c := nofun
    rw [active_run_iff, or_iff_right fun h => hnone h.2]
  refine ⟨hactive, fun a result => s.takes_step, fun a e => s.step_of_error, fun q => rfl, ?_⟩
  intro c hc
  obtain ⟨before, a, after, -, ha, -⟩ := (hactive c).mp hc
  obtain ⟨image, himage⟩ := Action.decode_of_outcome? ha
  refine ⟨Catalog.decode_image himage, (Catalog.decode_eq_ok_iff.mp himage).rule, ?_⟩
  intro q
  have ht : s.translator = ⟨some c⟩ := by
    rw [← hc]
  rw [← Query.answer_eq, ← ht]
  rfl

def noFiles : Files := ⟨fun _ => .error .notFound, fun _ => .error .notFound⟩

/-- A catalog is loaded and unloaded, installed, kept when a file is missing, and asked. -/
def reloading : List Action :=
  [.loadImage Catalog.crowdedImage, .unload, .change fun _ => noFiles,
    .install Catalog.crowded Catalog.crowdedImage Catalog.decode_crowdedImage, .loadFile "cs.mo",
    .ask (.translate "a")]

theorem Session.run_reloading :
    ((fresh noFiles).run reloading).translator.active = some Catalog.crowded ∧
      (((fresh noFiles).run reloading).step (.ask (.translate "b"))).2 = .answer (.text "y") := by
  obtain ⟨hactive, -, -, -, hanswers⟩ := run_fresh noFiles reloading
  have hquiet : ((fresh noFiles).run (reloading.take 3 ++ [.install Catalog.crowded
      Catalog.crowdedImage Catalog.decode_crowdedImage])).Quiet (reloading.drop 4) :=
    ⟨nofun, nofun, nofun, nofun, trivial⟩
  have hc := (hactive Catalog.crowded).mpr
    ⟨reloading.take 3, _, reloading.drop 4, rfl, rfl, hquiet⟩
  have hmessage : Query.message Catalog.crowded "b" = "y" := by decide +kernel
  refine ⟨hc, ?_⟩
  rw [(hanswers _ hc).2.2, Query.answer, hmessage]

end MessageCatalog
