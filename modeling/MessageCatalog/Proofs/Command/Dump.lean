import MessageCatalog.Command.Run
import MessageCatalog.Proofs.Catalog.Loading
import MessageCatalog.Proofs.Text.Escape

/-!
The dump of a catalog reads back: it has a line for each entry, in order, and the two fields of a
line spell the key and the message of its entry, if these are UTF-8.
-/
namespace MessageCatalog

open Text (IsUtf8 escapeBytes unescape?)

def readField? (field : List Char) : Option Bytes :=
  (unescape? field).map fun text => utf8 (String.ofList text)

/-- The entry on a line of two fields with a tab between them. -/
def readLine? (line : List Char) : Option (Bytes × Bytes) :=
  match line.splitOn '\t' with
  | [left, right] => (readField? left).bind fun id => (readField? right).map (id, ·)
  | _ => none

def entryLine (entry : Bytes × Bytes) : List Char :=
  (escapeBytes entry.1).toList ++ '\t' :: (escapeBytes entry.2).toList

section Line

variable (entry : Bytes × Bytes)

theorem toList_dumpLine : (dumpLine entry).toList = entryLine entry ++ ['\n'] := by
  simp [dumpLine, entryLine]

theorem newline_notMem_entryLine : '\n' ∉ entryLine entry := by
  have h (s : Bytes) : '\n' ∉ (escapeBytes s).toList := Text.notMem_escapeBytes (by decide) s
  simp [entryLine, h]

theorem count_tab_entryLine : (entryLine entry).count '\t' = 1 := by
  have h (s : Bytes) : (escapeBytes s).toList.count '\t' = 0 :=
    List.count_eq_zero.mpr (Text.notMem_escapeBytes (by decide) s)
  rw [entryLine, List.count_append, List.count_cons_self, h, h]

theorem readLine?_entryLine (h : IsUtf8 entry.1 ∧ IsUtf8 entry.2) :
    readLine? (entryLine entry) = some entry := by
  have htab (s : Bytes) : '\t' ∉ (escapeBytes s).toList := Text.notMem_escapeBytes (by decide) s
  have hfields : (entryLine entry).splitOn '\t' =
      [(escapeBytes entry.1).toList, (escapeBytes entry.2).toList] := by
    rw [entryLine, List.splitOn_append_cons_self_of_not_mem (htab _),
      List.splitOn_eq_singleton (htab _)]
  have hleft : readField? (escapeBytes entry.1).toList = some entry.1 :=
    Text.unescape?_escapeBytes h.1
  have hright : readField? (escapeBytes entry.2).toList = some entry.2 :=
    Text.unescape?_escapeBytes h.2
  unfold readLine?
  rw [hfields]
  dsimp only
  rw [hleft, hright]
  rfl

end Line

/-- Lines with their ends are split into the lines, and nothing behind the last end. -/
theorem splitOn_dump (c : Catalog) :
    c.dump.toList.splitOn '\n' = c.entries.map entryLine ++ [[]] := by
  rw [Catalog.dump, String.toList_join, List.flatMap_map]
  induction c.entries with
  | nil => rfl
  | cons entry entries ih =>
    rw [List.flatMap_cons, toList_dumpLine, List.append_assoc, List.singleton_append,
      List.splitOn_append_cons_self_of_not_mem (newline_notMem_entryLine entry), ih]
    rfl

def Catalog.HasText (c : Catalog) : Prop := ∀ entry ∈ c.entries, IsUtf8 entry.1 ∧ IsUtf8 entry.2

theorem map_readLine? {c : Catalog} (h : c.HasText) :
    (c.entries.map entryLine).map readLine? = c.entries.map some := by
  rw [List.map_map]
  exact List.map_congr_left fun entry hentry => readLine?_entryLine entry (h entry hentry)

theorem entries_eq_of_dump_eq {c c' : Catalog} (h : c.HasText) (h' : c'.HasText)
    (hdump : c'.dump = c.dump) : c'.entries = c.entries := by
  have hlines := splitOn_dump c'
  rw [hdump, splitOn_dump c] at hlines
  have hread := congrArg (List.map readLine?) (List.append_cancel_right hlines)
  rw [map_readLine? h, map_readLine? h'] at hread
  exact (List.map_injective_iff.mpr (Option.some_injective _) hread).symm

namespace Command

theorem dumpCatalog_of_load {files : Files} {p : Path} {c : Catalog}
    (h : (Catalog.load files p).value = .ok c) : dumpCatalog files p = .ok c.dump := by
  unfold dumpCatalog
  rw [h]
  rfl

/-- The dump of a catalog of UTF-8 strings has a line for each entry, in order, and nothing behind
the last line. A line has one tab, and its fields spell the entry. So another such catalog with the
same dump has the same entries. No field, of whatever bytes, has a NUL, a tab or the end of a line. -/
theorem dumpCatalog_lossless {files : Files} {p : Path} {c : Catalog}
    (h : (Catalog.load files p).value = .ok c) (hc : c.HasText) :
    (∃ output lines, dumpCatalog files p = .ok output ∧
      output.toList.splitOn '\n' = lines ++ [[]] ∧ lines.map readLine? = c.entries.map some ∧
      ∀ line ∈ lines, line.count '\t' = 1) ∧
    (∀ files' p' c', (Catalog.load files' p').value = .ok c' → c'.HasText →
      dumpCatalog files' p' = dumpCatalog files p → c'.entries = c.entries) ∧
    ∀ s : Bytes, ∀ mark ∈ ['\x00', '\t', '\r', '\n'], mark ∉ (escapeBytes s).toList := by
  refine ⟨⟨c.dump, c.entries.map entryLine, dumpCatalog_of_load h, splitOn_dump c,
    map_readLine? hc, ?_⟩, ?_, fun s mark hmark => Text.notMem_escapeBytes hmark s⟩
  · intro line hline
    obtain ⟨entry, -, rfl⟩ := List.mem_map.mp hline
    exact count_tab_entryLine entry
  · intro files' p' c' h' hc' hdump
    rw [dumpCatalog_of_load h, dumpCatalog_of_load h'] at hdump
    exact entries_eq_of_dump_eq hc hc' (Except.ok.inj hdump)

/-- One entry: a backslash before a letter and a NUL in the key, blanks and a letter of two bytes in
the message. -/
def escapingImage : ByteArray :=
  (([Catalog.signature, 0, 1, 28, 36, 0, 44, 4, 44, 4, 49] : List UInt32).flatMap
    ByteOrder.little.bytes ++ [92, 110, 0, 97, 0] ++ [9, 10, 0xC3, 0xA9, 0]).toByteArray

def escaping : Catalog where
  image := escapingImage
  header := ⟨.little, 0, 1, 28, 36, 0, 44⟩
  ids := #[⟨4, 44⟩]
  messages := #[⟨4, 49⟩]
  slots := none
  rule := .undeclared

def escapingFiles : Files := (FileTree.empty.write "x.mo" escapingImage).access

theorem dumpCatalog_escaping :
    ((Catalog.load escapingFiles "x.mo").value = .ok escaping ∧ escaping.HasText) ∧
    dumpCatalog escapingFiles "x.mo" = .ok "\\\\n\\0a\t\\t\\né\n" ∧
    ∃ lines, ("\\\\n\\0a\t\\t\\né\n").toList.splitOn '\n' = lines ++ [[]] ∧
      lines.map readLine? = [some ([92, 110, 0, 97], [9, 10, 0xC3, 0xA9])] := by
  have hdecode : Catalog.decode escapingImage = .ok escaping := by
    refine Catalog.decode_eq_ok_iff.mpr ⟨rfl, ?_, ?_, ?_, ?_, ?_⟩ <;> decide +kernel
  have hfile : Catalog.IsFile escapingFiles "x.mo" escapingImage := by
    constructor <;> rfl
  have hload : (Catalog.load escapingFiles "x.mo").value = .ok escaping := by
    rw [hfile.load_eq, hdecode]
    rfl
  have hentries : escaping.entries = [([92, 110, 0, 97], [9, 10, 0xC3, 0xA9])] := by
    decide +kernel
  have htext : escaping.HasText := by
    intro entry hentry
    rw [hentries, List.mem_singleton] at hentry
    subst hentry
    exact ⟨⟨['\\', 'n', '\x00', 'a'], rfl⟩, ⟨['\t', '\n', 'é'], rfl⟩⟩
  obtain ⟨⟨output, lines, houtput, hlines, hread, -⟩, -⟩ := dumpCatalog_lossless hload htext
  have hdump : escaping.dump = "\\\\n\\0a\t\\t\\né\n" := by decide +kernel
  rw [dumpCatalog_of_load hload, hdump] at houtput
  obtain rfl := Except.ok.inj houtput
  refine ⟨⟨hload, htext⟩, ?_, lines, hlines, ?_⟩
  · rw [dumpCatalog_of_load hload, hdump]
  · rw [hread, hentries]
    rfl

end Command

end MessageCatalog
