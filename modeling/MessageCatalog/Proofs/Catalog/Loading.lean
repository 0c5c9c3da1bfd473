import MessageCatalog.Catalog.Load
import MessageCatalog.Files.Tree
import MessageCatalog.Proofs.Catalog.Acceptance
import MessageCatalog.Proofs.Digest.Checksum

/-!
Loading from a file gives what its bytes decode to. A load against a checksum is the same load, kept
to files with the expected digest: the checks before decoding neither repair nor reject more.
-/
namespace MessageCatalog.Catalog

open Digest (sha256 checksum readChecksum? IsChecksum)

variable {image : ByteArray}

theorem decode_of_small (h : image.size < minSize) :
    decode image = .error (.tooSmall image.size) := by
  rw [decode, ofImage_eq, if_pos h]
  rfl

theorem decode_of_large (h : maxSize < image.size) :
    decode image = .error (.tooLarge image.size) := by
  have hmin : ¬image.size < minSize := Nat.not_lt.mpr (Nat.le_trans (by decide) h.le)
  rw [decode, ofImage_eq, if_neg hmin, if_pos h]
  rfl

/-- A regular file that can be read. -/
structure IsFile (files : Files) (p : Path) (image : ByteArray) : Prop where
  status_eq : files.status p = .ok ⟨.file, image.size⟩
  read_eq : files.read p = .ok image

namespace IsFile

variable {files : Files} {p : Path} (h : IsFile files p image)
include h

theorem fetch_eq : fetch files p =
    if image.size < minSize then .error (.catalog (.tooSmall image.size))
    else if maxSize < image.size then .error (.catalog (.tooLarge image.size))
    else .ok image := by
  rw [fetch, h.status_eq, h.read_eq]
  show (if image.size < minSize then _ else _) = _
  by_cases hmin : image.size < minSize
  · rw [if_pos hmin, if_pos hmin]
    rfl
  · rw [if_neg hmin, if_neg hmin]
    by_cases hmax : maxSize < image.size
    · rw [if_pos hmax, if_pos hmax]
      rfl
    · rw [if_neg hmax, if_neg hmax]
      rfl

/-- A file is read, or it is refused for its size as its bytes are. -/
theorem fetch_cases : fetch files p = .ok image ∨
    ∃ error, fetch files p = .error (.catalog error) ∧ decode image = .error error := by
  rw [h.fetch_eq]
  split_ifs with hmin hmax
  · exact Or.inr ⟨_, rfl, decode_of_small hmin⟩
  · exact Or.inr ⟨_, rfl, decode_of_large hmax⟩
  · exact Or.inl rfl

theorem load_eq : (load files p).value = (decode image).mapError .catalog := by
  unfold load
  rcases h.fetch_cases with hfetch | ⟨error, hfetch, hdecode⟩
  · rw [hfetch]
  · rw [hfetch, hdecode]
    rfl

theorem loadVerified_of_eq {expected : String}
    (he : readChecksum? expected = some (sha256 image)) :
    loadVerified files p expected = load files p := by
  unfold loadVerified load
  rw [he]
  rcases h.fetch_cases with hfetch | ⟨error, hfetch, -⟩
  · rw [hfetch]
    dsimp only
    rw [if_pos rfl]
  · rw [hfetch]

theorem loadVerified_ne_ok {expected : String} (c : Catalog)
    (he : readChecksum? expected ≠ some (sha256 image)) :
    (loadVerified files p expected).value ≠ .ok c := by
  unfold loadVerified
  cases hdigest : readChecksum? expected with
  | none => nofun
  | some digest =>
    rcases h.fetch_cases with hfetch | ⟨error, hfetch, -⟩
    · have hne : sha256 image ≠ digest := by
        rintro rfl
        exact he hdigest
      rw [hfetch]
      dsimp only
      rw [if_neg hne]
      nofun
    · rw [hfetch]
      nofun

theorem loadVerified_of_ne {expected : String} {digest : Bytes}
    (he : readChecksum? expected = some digest) (hne : digest ≠ sha256 image)
    (hmin : minSize ≤ image.size) (hmax : image.size ≤ maxSize) :
    (loadVerified files p expected).value = .error (.checksumMismatch p) := by
  unfold loadVerified
  rw [he, h.fetch_eq, if_neg (Nat.not_lt.mpr hmin), if_neg (Nat.not_lt.mpr hmax)]
  dsimp only
  rw [if_neg hne.symm]

end IsFile

/-- A load gives what the bytes decode to, error or not. Against a checksum it gives a catalog
exactly where the text spells the digest of the bytes and the load gives this catalog; against one of
other bytes it fails before the bytes are decoded; and against the checksum that is written of the
bytes it is the same load. A text spells a digest exactly where it is a checksum of it. -/
theorem loadVerified_restricts_load {files : Files} {p : Path} (h : IsFile files p image)
    (expected : String) :
    (load files p).value = (decode image).mapError .catalog ∧
    (∀ c, (loadVerified files p expected).value = .ok c ↔
      readChecksum? expected = some (sha256 image) ∧ (load files p).value = .ok c) ∧
    (∀ digest, readChecksum? expected = some digest → digest ≠ sha256 image →
      minSize ≤ image.size → image.size ≤ maxSize →
      (loadVerified files p expected).value = .error (.checksumMismatch p)) ∧
    loadVerified files p (checksum image) = load files p ∧
    ∀ s digest, readChecksum? s = some digest ↔ IsChecksum s digest := by
  refine ⟨h.load_eq, ?_, ?_, ?_, fun _ _ => Digest.readChecksum?_eq_some_iff⟩
  · intro c
    by_cases he : readChecksum? expected = some (sha256 image)
    · rw [h.loadVerified_of_eq he, and_iff_right he]
    · exact iff_of_false (h.loadVerified_ne_ok c he) fun hc => he hc.1
  · intro digest he hne hmin hmax
    exact h.loadVerified_of_ne he hne hmin hmax
  · exact h.loadVerified_of_eq (Digest.readChecksum?_checksum image)

def blankImage : ByteArray := (List.replicate 32 0).toByteArray

def blankFiles : Files := (FileTree.empty.write "cs.mo" blankImage).access

/-- The checksum of no bytes, in a mix of cases and between blanks. -/
def otherChecksum : String := "\tE3B0C44298fc1c149afbf4c8996fb92427ae41e4649b934ca495991b7852B855 "

/-- The bytes do not decode, but that the checksum is not theirs is found first. -/
theorem loadVerified_blankFile : IsFile blankFiles "cs.mo" blankImage ∧
    (load blankFiles "cs.mo").value = .error (.catalog (.badSignature 0)) ∧
    (loadVerified blankFiles "cs.mo" otherChecksum).value =
      .error (.checksumMismatch "cs.mo") := by
  have hfile : IsFile blankFiles "cs.mo" blankImage := by
    constructor <;> rfl
  have hsize : minSize ≤ blankImage.size ∧ blankImage.size ≤ maxSize := by decide
  -- The digests differ in their first byte.
  obtain ⟨digest, hdigest, hhead⟩ : ∃ digest, readChecksum? otherChecksum = some digest ∧
      digest.head? = some 0xE3 := ⟨_, rfl, rfl⟩
  have hfirst : (sha256 blankImage).head? ≠ some 0xE3 := by decide +kernel
  have hne : digest ≠ sha256 blankImage := fun h => hfirst (h ▸ hhead)
  obtain ⟨hload, -, hmismatch, -⟩ := loadVerified_restricts_load hfile otherChecksum
  exact ⟨hfile, hload.trans rfl, hmismatch digest hdigest hne hsize.1 hsize.2⟩

end MessageCatalog.Catalog
