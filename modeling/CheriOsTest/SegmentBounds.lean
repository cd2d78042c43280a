import CheriOsTest.FeaturePatch
set_option autoImplicit false

/-! Where the patched word lies. The inner loop compares only the twelve header
bytes of a note with the end of its segment. -/

namespace CheriOsTest.Elf
open CheriOsTest.Bytes CheriOsTest.CStrings

/-- The four bytes at `off` are part of the segment that `phdr` describes. -/
def Elf64Phdr.Covers (phdr : Elf64Phdr) (off : Nat) : Prop :=
  phdr.pOffset.toNat ≤ off ∧ off+4 ≤ phdr.pOffset.toNat+phdr.pFilesz.toNat

/-- Program header `j` of the file is a note segment. -/
def NoteSegment (f : List UInt8) (ehdr : Elf64Ehdr) (j : Nat) (phdr : Elf64Phdr) : Prop :=
  j < ehdr.ePhnum.toNat ∧ xpreadPhdr f ehdr j = .ok phdr ∧ phdr.pType = PT_NOTE

def InNoteSegment (f : List UInt8) (ehdr : Elf64Ehdr) (off : Nat) : Prop :=
  ∃ j phdr, NoteSegment f ehdr j phdr ∧ phdr.Covers off

/-- The run reads the word at `off`, and its file differs from `f` by that word, with the
request of the arguments applied to it. -/
def Rewrites (argv : List CString) (f g : List UInt8) (off : Nat) : Prop :=
  ∃ name arg path req, argv = [name,arg,path] ∧ parseRequest arg = some req ∧
    off+4 ≤ f.length ∧ g = patch f off (req.apply (wordAt f off))

/-- The segment that holds the header of the matching note reaches over the eight bytes of
the name and one word more, or else another note segment begins before that word and ends
behind it. -/
def WordFits (f : List UInt8) (ehdr : Elf64Ehdr) : Prop :=
  ∃ i phdr q, FirstMatch f ehdr i phdr q ∧
    (q.toNat+24 ≤ phdr.pOffset.toNat+phdr.pFilesz.toNat ∨
      ∃ j other, j ≠ i ∧ NoteSegment f ehdr j other ∧ other.pOffset.toNat ≤ q.toNat+20 ∧
        q.toNat+24 ≤ other.pOffset.toNat+other.pFilesz.toNat)

theorem inNoteSegment_iff_of_match {f : List UInt8} {ehdr : Elf64Ehdr} {i : Nat}
    {phdr : Elf64Phdr} {q : UInt64} (h : FirstMatch f ehdr i phdr q) :
    InNoteSegment f ehdr (q.toNat+20) ↔
      q.toNat+24 ≤ phdr.pOffset.toNat+phdr.pFilesz.toNat ∨
        ∃ j other, j ≠ i ∧ NoteSegment f ehdr j other ∧ other.pOffset.toNat ≤ q.toNat+20 ∧
          q.toNat+24 ≤ other.pOffset.toNat+other.pFilesz.toNat := by
  constructor
  · intro hin
    obtain ⟨j,p,hj,hstart,hend⟩ := hin
    by_cases hji : j = i
    · subst hji
      obtain ⟨-,hp,-⟩ := hj
      rw [h.header] at hp
      cases hp
      exact .inl (by omega)
    · exact .inr ⟨j,p,hji,hj,hstart,by omega⟩
  · intro hor
    rcases hor with hfit | ⟨j,p,-,hj,hstart,hend⟩
    · -- the cursor never moves below the start of its segment
      have hle := h.visits.le
      exact ⟨i,phdr,⟨h.index,h.header,h.note⟩,by omega,by omega⟩
    · exact ⟨j,p,hj,hstart,by omega⟩

theorem toOff_add_inj {p q d : UInt64} (h : toOff (p+d) = toOff (q+d)) : p = q := by
  have hb : (p+d).toBitVec = (q+d).toBitVec := BitVec.eq_of_toInt_eq h
  exact (UInt64.add_left_inj d).mp (UInt64.toBitVec_inj.mp hb)

/-- Two first matches of one file are at the same offset. -/
theorem FirstMatch.offset_unique {f : List UInt8} {ehdr : Elf64Ehdr} {i i' : Nat}
    {phdr phdr' : Elf64Phdr} {q q' : UInt64} (h : FirstMatch f ehdr i phdr q)
    (h' : FirstMatch f ehdr i' phdr' q') : q = q' := by
  have hoff := (findFeatureCtlDesc_of_match h).symm.trans (findFeatureCtlDesc_of_match h')
  exact toOff_add_inj (Except.ok.inj hoff)

theorem inNoteSegment_iff_wordFits {f : List UInt8} {ehdr : Elf64Ehdr} {i : Nat}
    {phdr : Elf64Phdr} {q : UInt64} (h : FirstMatch f ehdr i phdr q) :
    InNoteSegment f ehdr (q.toNat+20) ↔ WordFits f ehdr := by
  rw [inNoteSegment_iff_of_match h]
  constructor
  · exact fun hor => ⟨i,phdr,q,h,hor⟩
  · intro hw
    obtain ⟨i',phdr',q',h',hor⟩ := hw
    have hq := h.offset_unique h'
    subst hq
    rw [← inNoteSegment_iff_of_match h'] at hor
    rwa [← inNoteSegment_iff_of_match h]

/-- What a successful run reads and rewrites: one word, twenty bytes behind the header of the
first match. -/
theorem main_rewrites (sys : Sys) (argv : List CString) (f : List UInt8)
    (h : (main sys argv f).status = 0) : ∃ ehdr i phdr q,
      xpread Elf64Ehdr.sizeof Elf64Ehdr.ofBytes f 0 = .ok ehdr ∧
        FirstMatch f ehdr i phdr q ∧ Rewrites argv f (main sys argv f).file (q.toNat+20) := by
  rcases main_cases sys argv f with ⟨e,hm⟩ | ⟨name,arg,path,req,ehdr,off,ha,hreq,hl,hm⟩
  · rw [hm,Result.status_error] at h
    exact absurd h (by decide)
  · obtain ⟨i,phdr,q,hmatch,-,rfl⟩ := hl.firstMatch
    have hin := hl.inside
    rw [Int.toNat_natCast] at hm hin
    exact ⟨ehdr,i,phdr,q,hl.header,hmatch,name,arg,path,req,ha,hreq,hin,by rw [hm]⟩

/-- The word that a successful run reads and rewrites lies in the segment of its own note
exactly when that segment does not end before the word does, and in a note segment of the
file exactly when `WordFits`. -/
theorem main_in_segment_iff (sys : Sys) (argv : List CString) (f : List UInt8)
    (h : (main sys argv f).status = 0) : ∃ ehdr i phdr q,
      xpread Elf64Ehdr.sizeof Elf64Ehdr.ofBytes f 0 = .ok ehdr ∧
        FirstMatch f ehdr i phdr q ∧ Rewrites argv f (main sys argv f).file (q.toNat+20) ∧
        (phdr.Covers (q.toNat+20) ↔ q.toNat+24 ≤ phdr.pOffset.toNat+phdr.pFilesz.toNat) ∧
        (InNoteSegment f ehdr (q.toNat+20) ↔ WordFits f ehdr) := by
  obtain ⟨ehdr,i,phdr,q,hh,hm,hr⟩ := main_rewrites sys argv f h
  refine ⟨ehdr,i,phdr,q,hh,hm,hr,?_,inNoteSegment_iff_wordFits hm⟩
  have hle := hm.visits.le
  rw [Elf64Phdr.Covers]
  omega

theorem main_in_segment_test_elf : ∃ ehdr i phdr q,
    xpread Elf64Ehdr.sizeof Elf64Ehdr.ofBytes writeTestElf 0 = .ok ehdr ∧
      FirstMatch writeTestElf ehdr i phdr q ∧
      Rewrites [[],Request.cherirevoke.arg,[]] writeTestElf
        (main ⟨true,true⟩ [[],Request.cherirevoke.arg,[]] writeTestElf).file (q.toNat+20) ∧
      (phdr.Covers (q.toNat+20) ↔ q.toNat+24 ≤ phdr.pOffset.toNat+phdr.pFilesz.toNat) ∧
      (InNoteSegment writeTestElf ehdr (q.toNat+20) ↔ WordFits writeTestElf ehdr) :=
  main_in_segment_iff ⟨true,true⟩ [[],Request.cherirevoke.arg,[]] writeTestElf
    (by decide +kernel)

/-- The run changes byte 143, and the file's only note segment ends at 132. -/
theorem header_only_segment_patched :
    let r := main ⟨true,true⟩ [[],Request.cherirevoke.arg,[]] (elfWithNote 12)
    r.status = 0 ∧ (elfWithNote 12)[143]? = some 0 ∧ r.file[143]? = some 0x80 ∧
      xpread Elf64Ehdr.sizeof Elf64Ehdr.ofBytes (elfWithNote 12) 0 = .ok noteElfEhdr ∧
      ∀ j phdr, NoteSegment (elfWithNote 12) noteElfEhdr j phdr →
        phdr.pOffset.toNat+phdr.pFilesz.toNat = 132 := by
  refine ⟨by decide +kernel,by decide +kernel,by decide +kernel,by rfl,?_⟩
  intro j phdr hj
  obtain ⟨hj,hp,-⟩ := hj
  have hphdr : xpreadPhdr (elfWithNote 12) noteElfEhdr 0 = .ok ⟨4,120,12⟩ := by rfl
  have hone : noteElfEhdr.ePhnum.toNat = 1 := rfl
  have h0 : j = 0 := by omega
  rw [h0,hphdr] at hp
  cases hp
  rfl

end CheriOsTest.Elf
