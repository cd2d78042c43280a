import CheriOsTest.NoteWalk
set_option autoImplicit false

/-! Well-formed ELF files by their grammar, and the search over that grammar.
Neither knows about cursors or 32-bit sums; the loops of the tool are then
shown to compute the search on every file that the grammar describes. -/

namespace CheriOsTest.Elf
open CheriOsTest.Bytes CheriOsTest.Align CheriOsTest.Programs

/-- A note with its padding. The padding bytes themselves are arbitrary. -/
structure Note where
  type : UInt32
  name : List UInt8
  namePad : List UInt8
  desc : List UInt8
  descPad : List UInt8
  name_lt : name.length < 2^32
  desc_lt : desc.length < 2^32
  name_padded : name.length+namePad.length = roundUp 4 name.length
  desc_padded : desc.length+descPad.length = roundUp 4 desc.length

def Note.header (n : Note) : List UInt8 :=
  leBytes 4 n.name.length ++ leBytes 4 n.desc.length ++ leBytes 4 n.type.toNat

def Note.encode (n : Note) : List UInt8 :=
  n.header ++ n.name ++ (n.namePad ++ n.desc ++ n.descPad)

/-- The padding at the very end of a note. -/
def Note.trailingPad (n : Note) : Nat :=
  if n.desc = [] then n.namePad.length else n.descPad.length

def Note.descOffset (n : Note) : Nat := 12+n.name.length+n.namePad.length

def Note.isFeatureCtl (n : Note) : Bool :=
  n.name.length = 8 && n.type = NT_FREEBSD_FEATURE_CTL && n.name = freebsdName

/-- How a note segment may end after its complete notes: with a few stray bytes,
or with one more note that has lost some of its trailing padding. -/
inductive Ending where
  | stray (bytes : List UInt8) (short : bytes.length ≤ 11)
  | unpadded (last : Note) (cut : Nat) (bounded : cut ≤ last.trailingPad)

def Ending.encode : Ending → List UInt8
  | .stray bytes _ => bytes
  | .unpadded last cut _ => last.encode.take (last.encode.length-cut)

def Ending.notes : Ending → List Note
  | .stray _ _ => []
  | .unpadded last _ _ => [last]

structure Segment where
  notes : List Note
  ending : Ending

def Segment.encode (s : Segment) : List UInt8 :=
  s.notes.flatMap Note.encode ++ s.ending.encode

def locate : Nat → List Note → List (Nat × Note)
  | _, [] => []
  | pos, n :: ns => (pos,n) :: locate (pos+n.encode.length) ns

/-- Program header `phdr` describes the given segment, or no note segment. -/
def Holds (f : List UInt8) (phdr : Elf64Phdr) : Option (Nat × Segment) → Prop
  | none => phdr.pType ≠ PT_NOTE
  | some (pos,s) =>
      phdr.pType = PT_NOTE ∧ phdr.pOffset.toNat = pos ∧
        phdr.pFilesz.toNat = s.encode.length ∧ s.encode.length < 2^31 ∧
        pos+s.encode.length ≤ f.length ∧ HasAt f pos s.encode

def phdrAt (f : List UInt8) (ehdr : Elf64Ehdr) (i : Nat) : Elf64Phdr :=
  Elf64Phdr.ofBytes (pread f (ehdr.ePhoff.toNat+i*Elf64Phdr.sizeof) Elf64Phdr.sizeof)

/-- A well-formed little-endian ELF64 file, with what each of its program
headers describes: a note segment at an offset, or anything else. -/
structure ElfFile where
  bytes : List UInt8
  size_lt : bytes.length < 2^63
  ehdr : Elf64Ehdr
  header : xpread Elf64Ehdr.sizeof Elf64Ehdr.ofBytes bytes 0 = .ok ehdr
  magic : ehdr.eIdent.take 4 = elfMagic
  class64 : ehdr.eIdent.getD EI_CLASS 0 = ELFCLASS64
  data2lsb : ehdr.eIdent.getD EI_DATA 0 = ELFDATA2LSB
  phentsize : ehdr.ePhentsize.toNat = Elf64Phdr.sizeof
  segments : List (Option (Nat × Segment))
  phnum : ehdr.ePhnum.toNat = segments.length
  table : ehdr.ePhoff.toNat+segments.length*Elf64Phdr.sizeof ≤ bytes.length
  holds : ∀ (i : Nat) (h : i < segments.length), Holds bytes (phdrAt bytes ehdr i) segments[i]

def located (segments : List (Option (Nat × Segment))) : List (Nat × Note) :=
  segments.flatMap fun
    | none => []
    | some (pos,s) => locate pos (s.notes ++ s.ending.notes)

/-- The reference search: the first feature control note decides. -/
def searchIn (notes : List (Nat × Note)) : Except Exit (Option Int) :=
  match notes.find? (fun p => p.2.isFeatureCtl) with
  | none => .ok none
  | some (pos,n) =>
      if n.desc.length < 4 then .error descTooSmall else .ok (some (pos+n.descOffset : Nat))

def ElfFile.notes (e : ElfFile) : List (Nat × Note) := located e.segments

def ElfFile.search (e : ElfFile) : Except Exit Int :=
  match searchIn e.notes with
  | .error x => .error x
  | .ok none => .ok (-1)
  | .ok (some off) => .ok off

@[simp] theorem Note.header_length (n : Note) : n.header.length = 12 := by simp [header]

theorem Note.encode_length (n : Note) :
    n.encode.length = 12+roundUp 4 n.name.length+roundUp 4 n.desc.length := by
  have h₁ := n.name_padded
  have h₂ := n.desc_padded
  simp [encode]; omega

theorem Note.trailingPad_le (n : Note) :
    n.trailingPad ≤ 3 ∧ 12+n.name.length+n.trailingPad ≤ n.encode.length := by
  have h₁ := n.name_padded
  have h₂ := n.desc_padded
  have h₃ := roundUp_lt (show 0 < 4 by decide) n.name.length
  have h₄ := roundUp_lt (show 0 < 4 by decide) n.desc.length
  have hl := n.encode_length
  unfold trailingPad
  split <;> omega

theorem Note.descOffset_of_match {n : Note} (h : n.isFeatureCtl = true) :
    n.descOffset = 20 := by
  simp only [isFeatureCtl,Bool.and_eq_true,decide_eq_true_eq] at h
  have hp := n.name_padded
  rw [h.1.1,show roundUp 4 8 = 8 from rfl] at hp
  unfold descOffset; omega

theorem searchIn_nil : searchIn [] = .ok none := rfl

theorem searchIn_cons_match {n : Note} (pos : Nat) (rest : List (Nat × Note))
    (h : n.isFeatureCtl = true) :
    searchIn ((pos,n) :: rest) =
      if n.desc.length < 4 then .error descTooSmall else .ok (some (pos+20 : Nat)) := by
  simp [searchIn,h,Note.descOffset_of_match h]

theorem searchIn_cons_skip {n : Note} (pos : Nat) (rest : List (Nat × Note))
    (h : n.isFeatureCtl = false) : searchIn ((pos,n) :: rest) = searchIn rest := by
  simp [searchIn,h]

theorem searchIn_append (as bs : List (Nat × Note)) :
    searchIn (as ++ bs) =
      match searchIn as with
      | .error e => .error e
      | .ok none => searchIn bs
      | .ok (some off) => .ok (some off) := by
  induction as with
  | nil => rfl
  | cons a as ih =>
    obtain ⟨pos,n⟩ := a
    cases h : n.isFeatureCtl with
    | true =>
      rw [List.cons_append,searchIn_cons_match pos _ h,searchIn_cons_match pos _ h]
      split <;> simp_all
    | false => rw [List.cons_append,searchIn_cons_skip pos _ h,searchIn_cons_skip pos _ h,ih]

theorem searchIn_eq_none_iff (notes : List (Nat × Note)) :
    searchIn notes = .ok none ↔ ∀ p ∈ notes, p.2.isFeatureCtl = false := by
  induction notes with
  | nil => simp [searchIn_nil]
  | cons a notes ih =>
    obtain ⟨pos,n⟩ := a
    cases h : n.isFeatureCtl with
    | true =>
      rw [searchIn_cons_match pos _ h]
      split <;> simp [h]
    | false => rw [searchIn_cons_skip pos _ h,ih]; simp [h]

end CheriOsTest.Elf
