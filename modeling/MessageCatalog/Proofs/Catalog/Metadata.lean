import MessageCatalog.Catalog.Metadata
import MessageCatalog.Proofs.Bytes
import MessageCatalog.Proofs.Text.Basic

/-!
Headers that are written line by line and read back: the fields in their order, whatever ends the
lines, whatever blanks are before the values, and whatever lines without a name are between them.
-/
namespace MessageCatalog.Metadata

structure IsName (name : String) : Prop where
  ne_empty : name ≠ ""
  colon : ':' ∉ name.toList
  newline : '\n' ∉ name.toList
  trimmed : Text.Trimmed name.toList

structure IsValue (value : String) : Prop where
  newline : '\n' ∉ value.toList
  trimmed : Text.Trimmed value.toList

/-- A line without its end, with the field on it: one with a name and blanks before the value, or
none where there is no colon or where only blanks are before the first one. -/
inductive Line : Option (String × String) → List Char → Prop
  | field {name value : String} {blanks : List Char} (hname : IsName name) (hvalue : IsValue value)
      (hblanks : ∀ c ∈ blanks, Text.isBlank c ∧ c ≠ '\n') :
      Line (some (name, value)) (name.toList ++ ':' :: (blanks ++ value.toList))
  | plain {s : List Char} (hnewline : '\n' ∉ s) (hcolon : ':' ∉ s) : Line none s
  | nameless {blanks s : List Char} (hblanks : ∀ c ∈ blanks, Text.isBlank c)
      (hnewline : '\n' ∉ blanks ++ ':' :: s) : Line none (blanks ++ ':' :: s)

/-- Lines that carry the fields. Each ends with a line feed that may have a carriage return before
it; the last one may end with nothing. -/
inductive Written : List (String × String) → List Char → Prop
  | last {field : Option (String × String)} {s : List Char} (hline : Line field s) :
      Written field.toList s
  | line {field : Option (String × String)} {fields : List (String × String)}
      {s ending rest : List Char} (hline : Line field s)
      (hending : ending = ['\n'] ∨ ending = ['\r', '\n']) (hrest : Written fields rest) :
      Written (field.toList ++ fields) (s ++ ending ++ rest)

/-- Equal but for the case of ASCII letters. -/
def SameLetters (a b : String) : Prop := a.toList.map Char.toLower = b.toList.map Char.toLower

section Lines

variable {field : Option (String × String)} {s blanks : List Char}

theorem field?_colon {name : List Char} (hcolon : ':' ∉ name) (value : List Char) :
    field? (name ++ ':' :: value) = if Text.trimChars name = [] then none
      else some (String.ofList (Text.trimChars name), String.ofList (Text.trimChars value)) := by
  simp [field?, Text.splitOnce?_append hcolon]

theorem field?_eq_none (hcolon : ':' ∉ s) : field? s = none := by
  simp [field?, Text.splitOnce?_eq_none hcolon]

theorem colon_notMem_of_blank (h : ∀ c ∈ blanks, Text.isBlank c = true) : ':' ∉ blanks := by
  intro hmem
  cases h ':' hmem

theorem Line.field?_append (h : Line field s) (hblanks : ∀ c ∈ blanks, Text.isBlank c = true) :
    field? (s ++ blanks) = field := by
  cases h with
  | @field name value before hname hvalue hbefore =>
    have hvalue' : Text.trimChars (before ++ value.toList ++ blanks) = value.toList :=
      Text.trimChars_append (fun c hc => (hbefore c hc).1) hblanks hvalue.trimmed.1
        hvalue.trimmed.2
    have hne : name.toList ≠ [] := mt String.toList_eq_nil_iff.mp hname.ne_empty
    rw [List.append_assoc, List.cons_append, field?_colon hname.colon, hname.trimmed.trimChars_eq,
      if_neg hne, hvalue', String.ofList_toList, String.ofList_toList]
  | plain hnewline hcolon =>
    refine field?_eq_none ?_
    rw [List.mem_append, not_or]
    exact ⟨hcolon, colon_notMem_of_blank hblanks⟩
  | @nameless before rest hbefore hnewline =>
    rw [List.append_assoc, List.cons_append, field?_colon (colon_notMem_of_blank hbefore),
      if_pos (Text.trimChars_eq_nil_iff.mpr hbefore)]

theorem Line.newline_notMem (h : Line field s) : '\n' ∉ s := by
  cases h with
  | field hname hvalue hblanks =>
    simp only [List.mem_append, List.mem_cons, not_or]
    exact ⟨hname.newline, by decide, fun h => (hblanks _ h).2 rfl, hvalue.newline⟩
  | plain hnewline hcolon => exact hnewline
  | nameless hblanks hnewline => exact hnewline

/-- An end of a line leaves at most a blank of itself to the line. -/
theorem splitOn_line {ending rest : List Char} (hs : '\n' ∉ s)
    (hending : ending = ['\n'] ∨ ending = ['\r', '\n']) :
    ∃ blanks : List Char, (∀ c ∈ blanks, Text.isBlank c = true) ∧
      (s ++ ending ++ rest).splitOn '\n' = (s ++ blanks) :: rest.splitOn '\n' := by
  obtain ⟨blanks, hblanks, hnewline, rfl⟩ : ∃ blanks : List Char,
      (∀ c ∈ blanks, Text.isBlank c = true) ∧ '\n' ∉ blanks ∧ ending = blanks ++ ['\n'] := by
    rcases hending with rfl | rfl
    · exact ⟨[], nofun, nofun, rfl⟩
    · exact ⟨['\r'], by simp [Text.isBlank], by decide, rfl⟩
  refine ⟨blanks, hblanks, ?_⟩
  have hline : '\n' ∉ s ++ blanks := by
    rw [List.mem_append, not_or]
    exact ⟨hs, hnewline⟩
  rw [← List.append_assoc, List.append_assoc, List.singleton_append,
    List.splitOn_append_cons_self_of_not_mem hline]

end Lines

theorem filterMap_splitOn {fields : List (String × String)} {s : List Char}
    (h : Written fields s) : (s.splitOn '\n').filterMap field? = fields := by
  induction h with
  | @last field s hline =>
    have hfield : field? (s ++ []) = field := hline.field?_append nofun
    rw [List.append_nil] at hfield
    rw [List.splitOn_eq_singleton hline.newline_notMem, List.filterMap_cons, hfield]
    cases field <;> rfl
  | @line field fields s ending rest hline hending hrest ih =>
    obtain ⟨blanks, hblanks, hsplit⟩ := splitOn_line hline.newline_notMem hending
    rw [hsplit, List.filterMap_cons, hline.field?_append hblanks, ih]
    cases field <;> rfl

theorem parse_utf8 (s : List Char) :
    (parse (utf8 (String.ofList s))).fields = (s.splitOn '\n').filterMap field? := by
  rw [parse, Text.utf8_eq_flatMap, Text.decodeChars_flatMap, Text.splitAll_eq_splitOn]

section Access

variable {m : Metadata} {name : String}

theorem sameName_iff {a b : String} : sameName a b = true ↔ SameLetters a b := beq_iff_eq

theorem get?_eq_some_iff {value : String} : m.get? name = some value ↔
    ∃ before field after, m.fields = before ++ (field, value) :: after ∧
      SameLetters field name ∧ ∀ other ∈ before, ¬SameLetters other.1 name := by
  rw [get?, Option.map_eq_some_iff]
  constructor
  · rintro ⟨⟨field, value⟩, hfind, rfl⟩
    obtain ⟨hfield, before, after, hsplit, hbefore⟩ := List.find?_eq_some_iff_append.mp hfind
    refine ⟨before, field, after, hsplit, sameName_iff.mp hfield, fun other hother => ?_⟩
    simpa [← sameName_iff] using hbefore other hother
  · rintro ⟨before, field, after, hsplit, hfield, hbefore⟩
    refine ⟨(field, value), List.find?_eq_some_iff_append.mpr
      ⟨sameName_iff.mpr hfield, before, after, hsplit, fun other hother => ?_⟩, rfl⟩
    simpa [← sameName_iff] using hbefore other hother

theorem get?_eq_none_iff : m.get? name = none ↔ ∀ field ∈ m.fields, ¬SameLetters field.1 name := by
  rw [get?, Option.map_eq_none_iff, List.find?_eq_none]
  simp only [sameName_iff]

end Access

/-- Of a header that is written line by line exactly its fields are read, in order; and the value of a
name is that of the first field that has this name, whatever the case of its letters. -/
theorem parse_written {fields : List (String × String)} {s : List Char} (h : Written fields s) :
    let m := parse (utf8 (String.ofList s))
    m.fields = fields ∧
      (∀ name value, m.get? name = some value ↔
        ∃ before field after, fields = before ++ (field, value) :: after ∧
          SameLetters field name ∧ ∀ other ∈ before, ¬SameLetters other.1 name) ∧
      ∀ name, m.get? name = none ↔ ∀ field ∈ fields, ¬SameLetters field.1 name := by
  intro m
  have hfields : m.fields = fields := (parse_utf8 s).trans (filterMap_splitOn h)
  refine ⟨hfields, fun name value => ?_, fun name => ?_⟩
  · rw [get?_eq_some_iff, hfields]
  · rw [get?_eq_none_iff, hfields]

/-- Both ends of lines, a value with a colon and a carriage return, a line without a colon and one
without a name, and a name that is repeated in capitals on a last line without an end. -/
def mixedHeader : String := "Language: cs\r\n : cs\nplain\r\nX-Team:\t:a\rb\nLANGUAGE:"

theorem written_mixedHeader :
    Written [("Language", "cs"), ("X-Team", ":a\rb"), ("LANGUAGE", "")] mixedHeader.toList := by
  have hlanguage : Line (some ("Language", "cs"))
      ("Language".toList ++ ':' :: ([' '] ++ "cs".toList)) :=
    .field ⟨by decide, by decide, by decide, by decide⟩ ⟨by decide, by decide⟩ (by simp [Text.isBlank])
  have hnameless : Line none ([' '] ++ ':' :: " cs".toList) := .nameless (by simp [Text.isBlank]) (by decide)
  have hplain : Line none "plain".toList := .plain (by decide) (by decide)
  have hteam : Line (some ("X-Team", ":a\rb"))
      ("X-Team".toList ++ ':' :: (['\t'] ++ ":a\rb".toList)) :=
    .field ⟨by decide, by decide, by decide, by decide⟩ ⟨by decide, by decide⟩ (by simp [Text.isBlank])
  have hcapitals : Line (some ("LANGUAGE", "")) ("LANGUAGE".toList ++ ':' :: ([] ++ "".toList)) :=
    .field ⟨by decide, by decide, by decide, by decide⟩ ⟨by decide, by decide⟩ (by simp [Text.isBlank])
  have hwritten := Written.line hlanguage (Or.inr rfl) <| .line hnameless (Or.inl rfl) <|
    .line hplain (Or.inr rfl) <| .line hteam (Or.inl rfl) <| .last hcapitals
  exact hwritten

theorem parse_written_mixedHeader :
    Written [("Language", "cs"), ("X-Team", ":a\rb"), ("LANGUAGE", "")] mixedHeader.toList ∧
      (parse (utf8 mixedHeader)).fields =
        [("Language", "cs"), ("X-Team", ":a\rb"), ("LANGUAGE", "")] ∧
      (parse (utf8 mixedHeader)).get? "language" = some "cs" ∧
      (parse (utf8 mixedHeader)).get? "team" = none := by
  obtain ⟨hfields, hsome, hnone⟩ := parse_written written_mixedHeader
  rw [String.ofList_toList] at hfields hsome hnone
  refine ⟨written_mixedHeader, hfields, (hsome _ _).mpr ⟨[], _, _, rfl, ?_, nofun⟩,
    (hnone _).mpr ?_⟩
  · unfold SameLetters
    decide
  · unfold SameLetters
    decide

end MessageCatalog.Metadata
