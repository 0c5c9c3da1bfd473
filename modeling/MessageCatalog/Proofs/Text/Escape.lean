import MessageCatalog.Proofs.Bytes
import MessageCatalog.Text.Escape

/-!
Escaped fields read back. A backslash starts an escape and nothing else, so undoing the escapes gives
the text; and what ends a field or a line never stands in one.
-/
namespace MessageCatalog.Text

/-- The escapes: the character after the backslash, and the one that is meant. -/
def escapes : List (Char × Char) :=
  [('0', '\x00'), ('n', '\n'), ('r', '\r'), ('t', '\t'), ('\\', '\\')]

/-- The text with its escapes undone; none where a backslash starts no escape. -/
def unescape? : List Char → Option (List Char)
  | [] => some []
  | '\\' :: s =>
      match s with
      | [] => none
      | c :: s => (escapes.lookup c).bind fun d => (unescape? s).map (d :: ·)
  | c :: s => (unescape? s).map (c :: ·)

theorem escapeChar_cases (c : Char) :
    (∃ x ∈ escapes.map Prod.fst, escapes.lookup x = some c ∧ escapeChar c = ['\\', x]) ∨
      (escapeChar c = [c] ∧ c ∉ escapes.map Prod.snd) := by
  unfold escapeChar
  split
  case h_6 h0 hn hr ht hb =>
    right
    simpa [escapes] using ⟨h0, hn, hr, ht, hb⟩
  all_goals exact Or.inl ⟨_, by decide, rfl, rfl⟩

theorem unescape?_append (c : Char) (s : List Char) :
    unescape? (escapeChar c ++ s) = (unescape? s).map (c :: ·) := by
  rcases escapeChar_cases c with ⟨x, -, hx, hc⟩ | ⟨hc, hplain⟩
  · rw [hc, List.cons_append, List.singleton_append, unescape?, hx, Option.bind_some]
  · have hne : c ≠ '\\' := by
      rintro rfl
      exact hplain (by decide)
    rw [hc, List.singleton_append, unescape?]
    exact fun h => absurd h hne

theorem unescape?_flatMap (s : List Char) : unescape? (s.flatMap escapeChar) = some s := by
  induction s with
  | nil => rfl
  | cons c s ih => rw [List.flatMap_cons, unescape?_append, ih, Option.map_some]

theorem toList_escapeBytes (s : Bytes) :
    (escapeBytes s).toList = (decodeChars s).flatMap escapeChar :=
  String.toList_ofList

/-- The field of a byte string that is UTF-8 spells its bytes. -/
theorem unescape?_escapeBytes {s : Bytes} (h : IsUtf8 s) :
    (unescape? (escapeBytes s).toList).map (fun text => utf8 (String.ofList text)) = some s := by
  have hdecode := utf8_decode h
  rw [toList_escapeBytes, unescape?_flatMap, Option.map_some]
  exact congrArg some hdecode

/-- No field has a character that ends a field or a line, or a NUL. -/
theorem notMem_escapeBytes {c : Char} (h : c ∈ ['\x00', '\t', '\r', '\n']) (s : Bytes) :
    c ∉ (escapeBytes s).toList := by
  rw [toList_escapeBytes]
  intro hc
  obtain ⟨d, -, hd⟩ := List.mem_flatMap.mp hc
  have hmeant : c ∈ escapes.map Prod.snd ∧ c ≠ '\\' ∧ c ∉ escapes.map Prod.fst := by
    simp only [List.mem_cons, List.not_mem_nil, or_false] at h
    rcases h with rfl | rfl | rfl | rfl <;> decide
  rcases escapeChar_cases d with ⟨x, hx, -, hescape⟩ | ⟨hescape, hplain⟩
  · rw [hescape, List.mem_cons, List.mem_singleton] at hd
    rcases hd with rfl | rfl
    · exact hmeant.2.1 rfl
    · exact hmeant.2.2 hx
  · rw [hescape, List.mem_singleton] at hd
    exact hplain (hd ▸ hmeant.1)

end MessageCatalog.Text
