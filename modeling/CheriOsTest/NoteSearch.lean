import CheriOsTest.NoteGrammar
set_option autoImplicit false

/-! The two loops compute the reference search on every well-formed file. -/

namespace CheriOsTest.Elf
open CheriOsTest.Bytes CheriOsTest.Align CheriOsTest.Programs CheriOsTest.CStrings

theorem readU32_leBytes {bs : List UInt8} {off v : Nat} (h : HasAt bs off (leBytes 4 v))
    (hv : v < 2^32) : (readU32 bs off).toNat = v := by
  have hp := h.pread_eq
  rw [leBytes_length] at hp
  rw [readU32,hp,leNat_leBytes 4 v (by omega),UInt32.toNat_ofNat']
  omega

/-- A header that starts with a note's twelve bytes reads back as that note's sizes and type. -/
theorem nhdrAt_of_hasAt {f : List UInt8} {pos : UInt64} {n : Note}
    (h : HasAt f pos.toNat n.header) :
    (nhdrAt f pos).nNamesz.toNat = n.name.length ∧
      (nhdrAt f pos).nDescsz.toNat = n.desc.length ∧ (nhdrAt f pos).nType = n.type := by
  have hp : pread f pos.toNat Elf64Nhdr.sizeof = n.header := by
    have hl := h.pread_eq
    rwa [n.header_length] at hl
  have hd : HasAt n.header 0 n.header := ⟨[],by simp⟩
  have hd' := hd
  simp only [Note.header] at hd
  obtain ⟨hnd,ht⟩ := (hasAt_append _ _ _ _).mp hd
  obtain ⟨hn,hd⟩ := (hasAt_append _ _ _ _).mp hnd
  simp only [List.length_append,leBytes_length,Nat.zero_add] at hd ht
  rw [nhdrAt,hp]
  simp only [Elf64Nhdr.ofBytes,Note.header]
  refine ⟨readU32_leBytes hn n.name_lt,readU32_leBytes hd n.desc_lt,?_⟩
  apply UInt32.toNat.inj
  exact readU32_leBytes ht n.type.toNat_lt

theorem isFeatureCtl_iff {f : List UInt8} {pos : UInt64} {n : Note}
    (h : HasAt f pos.toNat (n.header ++ n.name)) :
    IsFeatureCtl f pos ↔ n.isFeatureCtl = true := by
  obtain ⟨hh,hn⟩ := (hasAt_append _ _ _ _).mp h
  obtain ⟨h₁,-,h₃⟩ := nhdrAt_of_hasAt hh
  rw [n.header_length] at hn
  have h8 : (nhdrAt f pos).nNamesz = 8 ↔ n.name.length = 8 := by
    rw [← h₁]
    constructor
    · intro he; rw [he]; rfl
    · intro he; exact UInt32.toNat.inj he
  simp only [IsFeatureCtl,Note.isFeatureCtl,Bool.and_eq_true,decide_eq_true_eq,h8,h₃,
    and_assoc]
  refine and_congr_right fun hl => and_congr_right fun _ => ?_
  have hp := hn.pread_eq
  rw [hl] at hp
  rw [hp]

theorem noteStep_match {f : List UInt8} {pos : UInt64} (h₁ : pos.toNat+12 < 2^63)
    (h₂ : pos.toNat+20 ≤ f.length) (hm : IsFeatureCtl f pos) :
    noteStep f pos =
      if (nhdrAt f pos).nDescsz < 4 then .error descTooSmall
      else .ok (.inl (toOff (pos+20))) := by
  have hr : xpreadNhdr f pos = .ok (nhdrAt f pos) := (xpreadNhdr_eq_ok _).mpr
    ⟨by omega,by omega,rfl⟩
  have hn := (xpreadName_eq_ok (by omega : pos.toNat < 2^63) _).mpr ⟨h₁,h₂,hm.2.2⟩
  have hc : ((nhdrAt f pos).nNamesz == 8 &&
      (nhdrAt f pos).nType == NT_FREEBSD_FEATURE_CTL) = true := by simp [hm.1,hm.2.1]
  simp only [noteStep,hr,hn,hc,bind,Except.bind,if_true]
  rw [hm.1,UInt64.add_assoc]
  rfl

theorem noteStep_skip {f : List UInt8} {pos : UInt64} (h₁ : pos.toNat+12 < 2^63)
    (h₂ : pos.toNat+12 ≤ f.length)
    (h₃ : (nhdrAt f pos).nNamesz = 8 → pos.toNat+20 ≤ f.length)
    (hm : ¬ IsFeatureCtl f pos) : ∃ pos', noteStep f pos = .ok (.inr pos') := by
  have hr : xpreadNhdr f pos = .ok (nhdrAt f pos) := (xpreadNhdr_eq_ok _).mpr
    ⟨by omega,h₂,rfl⟩
  by_cases hc : (nhdrAt f pos).nNamesz = 8 ∧ (nhdrAt f pos).nType = NT_FREEBSD_FEATURE_CTL
  · have hn := (xpreadName_eq_ok (by omega : pos.toNat < 2^63) _).mpr ⟨h₁,h₃ hc.1,rfl⟩
    have hf : pread f (pos.toNat+12) 8 ≠ freebsdName := fun h => hm ⟨hc.1,hc.2,h⟩
    simp [noteStep,hr,hn,hc.1,hc.2,hf,bind,Except.bind]
  · have hc' : ((nhdrAt f pos).nNamesz == 8 &&
        (nhdrAt f pos).nType == NT_FREEBSD_FEATURE_CTL) = false := by
      rw [Bool.eq_false_iff]
      simpa using hc
    simp [noteStep,hr,hc',bind,Except.bind]

/-- The cursor of the inner loop stands at a note: its header and its name lie
in the file, and its padded size is far from the 32-bit wrap. -/
structure AtNote (f : List UInt8) (pos : UInt64) (n : Note) : Prop where
  bytes : HasAt f pos.toNat (n.header ++ n.name)
  size_lt : n.encode.length < 2^31+3
  file_lt : f.length < 2^63

theorem AtNote.le_length {f : List UInt8} {pos : UInt64} {n : Note} (h : AtNote f pos n) :
    pos.toNat+12+n.name.length ≤ f.length := by
  have hl := h.bytes.le_length (by
    intro he
    have := congrArg List.length he
    simp at this)
  rw [List.length_append,n.header_length] at hl
  omega

theorem AtNote.advance {f : List UInt8} {pos : UInt64} {n : Note} (h : AtNote f pos n) :
    12+advance (nhdrAt f pos) = n.encode.length := by
  obtain ⟨hh,-⟩ := (hasAt_append _ _ _ _).mp h.bytes
  obtain ⟨h₁,h₂,-⟩ := nhdrAt_of_hasAt hh
  have hs := h.size_lt
  have hl := n.encode_length
  have hn := le_roundUp (by decide : 0 < 4) n.name.length
  have hd := le_roundUp (by decide : 0 < 4) n.desc.length
  rw [Elf.advance,roundup4_of_lt (by omega),roundup4_of_lt (by omega),h₁,h₂]
  omega

theorem AtNote.step_match {f : List UInt8} {pos : UInt64} {n : Note} (h : AtNote f pos n)
    (hm : n.isFeatureCtl = true) :
    noteStep f pos =
      if n.desc.length < 4 then .error descTooSmall else .ok (.inl (pos.toNat+20 : Nat)) := by
  have hf := h.file_lt
  have hl := h.le_length
  have hi := (isFeatureCtl_iff h.bytes).mpr hm
  obtain ⟨hh,-⟩ := (hasAt_append _ _ _ _).mp h.bytes
  obtain ⟨h₁,h₂,-⟩ := nhdrAt_of_hasAt hh
  have h8 : n.name.length = 8 := by rw [← h₁,hi.1]; rfl
  have hd : (nhdrAt f pos).nDescsz < 4 ↔ n.desc.length < 4 := by
    rw [UInt32.lt_iff_toNat_lt,h₂]; rfl
  have ho : toOff (pos+20) = (pos.toNat+20 : Nat) := by
    have hp : (pos+20).toNat = pos.toNat+20 := by
      rw [UInt64.toNat_add]
      change (pos.toNat+20)%2^64 = pos.toNat+20
      omega
    rw [toOff_of_lt (by omega),hp]
  rw [noteStep_match (by omega) (by omega) hi,ho]
  simp only [hd]

theorem AtNote.step_skip {f : List UInt8} {pos : UInt64} {n : Note} (h : AtNote f pos n)
    (hm : n.isFeatureCtl = false) :
    ∃ pos', noteStep f pos = .ok (.inr pos') ∧ pos'.toNat = pos.toNat+n.encode.length := by
  have hf := h.file_lt
  have hl := h.le_length
  obtain ⟨hh,-⟩ := (hasAt_append _ _ _ _).mp h.bytes
  obtain ⟨h₁,-⟩ := nhdrAt_of_hasAt hh
  have hi : ¬ IsFeatureCtl f pos := by rw [isFeatureCtl_iff h.bytes,hm]; decide
  obtain ⟨pos',hs⟩ := noteStep_skip (by omega) (by omega)
    (fun he => by rw [he] at h₁; change 8 = n.name.length at h₁; omega) hi
  obtain ⟨-,hp,-⟩ := noteStep_inr hs
  have ha := h.advance
  exact ⟨pos',hs,by omega⟩

/-- One note of the grammar is one round of the loop. -/
theorem noteLoop_note {f : List UInt8} {stop pos : UInt64} {n : Note} (h : AtNote f pos n)
    (hp : pos.toNat+12 ≤ stop.toNat) (rest : List (Nat × Note))
    (hrest : ∀ pos', pos'.toNat = pos.toNat+n.encode.length →
      noteLoop f stop pos' = searchIn rest) :
    noteLoop f stop pos = searchIn ((pos.toNat,n) :: rest) := by
  have hle : pos+12 ≤ stop := by
    rw [UInt64.le_iff_toNat_le,UInt64.toNat_add]
    change (pos.toNat+12)%2^64 ≤ stop.toNat
    have := stop.toNat_lt
    omega
  cases hm : n.isFeatureCtl with
  | true =>
    have hs := h.step_match hm
    rw [searchIn_cons_match _ _ hm]
    by_cases hd : n.desc.length < 4
    · rw [if_pos hd] at hs ⊢
      exact noteLoop_error hle hs
    · rw [if_neg hd] at hs ⊢
      exact noteLoop_inl hle hs
  | false =>
    obtain ⟨pos',hs,hp'⟩ := h.step_skip hm
    rw [searchIn_cons_skip _ _ hm,noteLoop_inr hle hs]
    exact hrest pos' hp'

theorem noteLoop_past_end {f : List UInt8} {stop pos : UInt64}
    (h : stop.toNat < pos.toNat+12) (hp : pos.toNat+12 < 2^64) :
    noteLoop f stop pos = .ok none := by
  apply noteLoop_stop
  rw [UInt64.le_iff_toNat_le,UInt64.toNat_add]
  change ¬ (pos.toNat+12)%2^64 ≤ stop.toNat
  omega

theorem noteLoop_ending {f : List UInt8} {stop pos : UInt64} (e : Ending)
    (hb : HasAt f pos.toNat e.encode) (hstop : stop.toNat = pos.toNat+e.encode.length)
    (hsize : e.encode.length < 2^31) (hend : stop.toNat ≤ f.length)
    (hf : f.length < 2^63) :
    noteLoop f stop pos = searchIn (locate pos.toNat e.notes) := by
  cases e with
  | stray bytes short =>
    simp only [Ending.encode] at hstop
    rw [noteLoop_past_end (by omega) (by omega)]
    rfl
  | unpadded n cut bounded =>
    obtain ⟨ht,hl⟩ := n.trailingPad_le
    simp only [Ending.encode,List.length_take] at hb hstop hsize
    have hat : AtNote f pos n := by
      refine ⟨hb.shorten ?_,by omega,hf⟩
      rw [Note.encode]
      apply List.prefix_of_prefix_length_le (List.prefix_append _ _) (List.take_prefix _ _)
      have hh := n.header_length
      have hl' := hl
      rw [Note.encode] at hl'
      simp only [List.length_append,List.length_take,hh] at hl' ⊢
      omega
    refine noteLoop_note hat (by omega) [] ?_
    intro pos' hp'
    exact noteLoop_past_end (by omega) (by omega)

theorem noteLoop_segment {f : List UInt8} {stop pos : UInt64} (ns : List Note) (e : Ending)
    (hb : HasAt f pos.toNat (ns.flatMap Note.encode ++ e.encode))
    (hstop : stop.toNat = pos.toNat+(ns.flatMap Note.encode ++ e.encode).length)
    (hsize : (ns.flatMap Note.encode ++ e.encode).length < 2^31)
    (hend : stop.toNat ≤ f.length) (hf : f.length < 2^63) :
    noteLoop f stop pos = searchIn (locate pos.toNat (ns ++ e.notes)) := by
  induction ns generalizing pos with
  | nil => exact noteLoop_ending e hb hstop hsize hend hf
  | cons n ns ih =>
    simp only [List.flatMap_cons,List.append_assoc] at hb hstop hsize
    obtain ⟨hn,hrest⟩ := (hasAt_append _ _ _ _).mp hb
    simp only [List.length_append] at hstop hsize ih
    have hl := n.encode_length
    have hat : AtNote f pos n :=
      ⟨hn.shorten (List.prefix_append _ _),by omega,hf⟩
    refine noteLoop_note hat (by omega) _ ?_
    intro pos' hp'
    rw [← hp'] at hrest ⊢
    exact ih hrest (by omega) (by omega)

theorem noteLoop_holds {f : List UInt8} {phdr : Elf64Phdr} {pos : Nat} {s : Segment}
    (hf : f.length < 2^63) (h : Holds f phdr (some (pos,s))) :
    noteLoop f (phdr.pOffset+phdr.pFilesz) phdr.pOffset =
      searchIn (locate pos (s.notes ++ s.ending.notes)) := by
  obtain ⟨-,rfl,hsz,hlt,hend,hb⟩ := h
  have hstop : (phdr.pOffset+phdr.pFilesz).toNat = phdr.pOffset.toNat+s.encode.length := by
    rw [UInt64.toNat_add,hsz]; omega
  exact noteLoop_segment s.notes s.ending hb hstop hlt (by omega) hf

theorem xpreadPhdr_of_table {f : List UInt8} {ehdr : Elf64Ehdr} {i : Nat}
    (hsz : ehdr.ePhentsize.toNat = Elf64Phdr.sizeof)
    (ht : ehdr.ePhoff.toNat+(i+1)*Elf64Phdr.sizeof ≤ f.length) (hf : f.length < 2^63) :
    xpreadPhdr f ehdr i = .ok (phdrAt f ehdr i) := by
  have h56 : Elf64Phdr.sizeof = 56 := rfl
  rw [h56] at ht
  have ho : (ehdr.ePhoff+UInt64.ofNat i*ehdr.ePhentsize.toUInt64).toNat =
      ehdr.ePhoff.toNat+i*Elf64Phdr.sizeof := by
    rw [UInt64.toNat_add,UInt64.toNat_mul,UInt16.toNat_toUInt64,hsz,UInt64.toNat_ofNat',h56]
    omega
  rw [xpreadPhdr,xpread_toOff_eq_ok (by decide),ho,h56]
  exact ⟨by omega,by omega,rfl⟩

theorem phdrLoop_segments {f : List UInt8} {ehdr : Elf64Ehdr}
    (hsz : ehdr.ePhentsize.toNat = Elf64Phdr.sizeof) (hf : f.length < 2^63)
    (segs : List (Option (Nat × Segment))) (i : Nat)
    (ht : ehdr.ePhoff.toNat+(i+segs.length)*Elf64Phdr.sizeof ≤ f.length)
    (hs : ∀ (k : Nat) (hk : k < segs.length), Holds f (phdrAt f ehdr (i+k)) segs[k]) :
    phdrLoop f ehdr segs.length i =
      match searchIn (located segs) with
      | .error e => .error e
      | .ok none => .ok (-1)
      | .ok (some off) => .ok off := by
  induction segs generalizing i with
  | nil => rfl
  | cons s segs ih =>
    have h56 : Elf64Phdr.sizeof = 56 := rfl
    rw [h56,List.length_cons] at ht
    have hr : xpreadPhdr f ehdr i = .ok (phdrAt f ehdr i) :=
      xpreadPhdr_of_table hsz (by rw [h56]; omega) hf
    have hi := ih (i+1) (by rw [h56]; omega) (fun k hk => by
      have h := hs (k+1) (by simp only [List.length_cons]; omega)
      rw [Nat.add_right_comm,Nat.add_assoc]
      exact h)
    have h0 : Holds f (phdrAt f ehdr i) s := hs 0 (by simp)
    cases s with
    | none =>
      rw [List.length_cons,phdrLoop_pass ⟨_,hr,fun hp => absurd hp h0⟩,hi]
      rfl
    | some ps =>
      obtain ⟨pos,s⟩ := ps
      have hl := noteLoop_holds hf h0
      have hp := h0.1
      have ha : located (some (pos,s) :: segs) =
          locate pos (s.notes ++ s.ending.notes) ++ located segs := rfl
      rw [ha,searchIn_append,List.length_cons]
      cases hn : searchIn (locate pos (s.notes ++ s.ending.notes)) with
      | error e =>
        rw [hn] at hl
        simp [phdrLoop,hr,hp,hl,bind,Except.bind]
      | ok r =>
        rw [hn] at hl
        cases r with
        | none => rw [phdrLoop_pass ⟨_,hr,fun _ => hl⟩,hi]
        | some off => exact phdrLoop_match hr hp hl

/-- On every well-formed file the tool computes the reference search; it
answers -1 exactly when no note segment holds a feature control note. -/
theorem findFeatureCtlDesc_eq_search (e : ElfFile) :
    findFeatureCtlDesc e.bytes e.ehdr = e.search ∧
      (findFeatureCtlDesc e.bytes e.ehdr = .ok (-1) ↔
        ∀ p ∈ e.notes, p.2.isFeatureCtl = false) := by
  have h : findFeatureCtlDesc e.bytes e.ehdr = e.search := by
    rw [findFeatureCtlDesc,e.phnum,phdrLoop_segments e.phentsize e.size_lt e.segments 0
      (by rw [Nat.zero_add]; exact e.table) (fun k hk => by
        rw [Nat.zero_add]; exact e.holds k hk)]
    rfl
  refine ⟨h,?_⟩
  rw [h,ElfFile.search,← searchIn_eq_none_iff]
  cases hs : searchIn e.notes with
  | error x => simp
  | ok r =>
    cases r with
    | none => simp
    | some off =>
      have ho : 0 ≤ off := by
        unfold searchIn at hs
        split at hs
        · cases hs
        · split at hs
          · cases hs
          · cases hs; exact Int.natCast_nonneg _
      simp only [Except.ok.injEq,reduceCtorEq,iff_false]
      omega

section TwoSegments

/-- A note of another owner, with a descriptor of an odd size. -/
def gnuNote : Note where
  type := 3
  name := cstr "GNU" ++ [0]
  namePad := []
  desc := [1,2,3,4,5]
  descPad := [0,0,0]
  name_lt := by decide
  desc_lt := by decide
  name_padded := by decide
  desc_padded := by decide

/-- The name is that of the owner looked for, and the type is not. -/
def abiTag : Note where
  type := 1
  name := freebsdName
  namePad := []
  desc := leBytes 4 1500000
  descPad := []
  name_lt := by decide
  desc_lt := by decide
  name_padded := by decide
  desc_padded := by decide

/-- A name of an odd size and no descriptor. -/
def shortNote : Note where
  type := NT_FREEBSD_FEATURE_CTL
  name := cstr "ab"
  namePad := [7,7]
  desc := []
  descPad := []
  name_lt := by decide
  desc_lt := by decide
  name_padded := by decide
  desc_padded := by decide

def featureCtlNote : Note where
  type := NT_FREEBSD_FEATURE_CTL
  name := freebsdName
  namePad := []
  desc := leBytes 4 0 ++ [8,9]
  descPad := [0,0]
  name_lt := by decide
  desc_lt := by decide
  name_padded := by decide
  desc_padded := by decide

/-- Two complete notes and three stray bytes. -/
def straySegment : Segment := ⟨[gnuNote,abiTag],.stray [1,2,3] (by decide)⟩

/-- The last of the two notes has lost its trailing padding. -/
def unpaddedSegment : Segment := ⟨[shortNote],.unpadded featureCtlNote 2 (by decide)⟩

def phdrBytes (type : UInt32) (off filesz : Nat) : List UInt8 :=
  leBytes 4 type.toNat ++ List.replicate 4 0 ++ leBytes 8 off ++ List.replicate 16 0 ++
    leBytes 8 filesz ++ List.replicate 16 0

/-- A segment to load and two segments of notes behind the table of program headers. -/
def twoSegmentsBytes : List UInt8 :=
  elfMagic ++ [ELFCLASS64,ELFDATA2LSB] ++ List.replicate 26 0 ++ leBytes 8 64 ++
    List.replicate 14 0 ++ leBytes 2 56 ++ leBytes 2 3 ++ List.replicate 6 0 ++
    phdrBytes 1 0 325 ++ phdrBytes PT_NOTE 232 51 ++ phdrBytes PT_NOTE 283 42 ++
    straySegment.encode ++ unpaddedSegment.encode

def twoSegmentsEhdr : Elf64Ehdr := ⟨elfMagic ++ [2,1] ++ List.replicate 10 0,64,56,3⟩

theorem twoSegments_phdrs :
    (phdrAt twoSegmentsBytes twoSegmentsEhdr 0).pType ≠ PT_NOTE ∧
      phdrAt twoSegmentsBytes twoSegmentsEhdr 1 = ⟨PT_NOTE,232,51⟩ ∧
      phdrAt twoSegmentsBytes twoSegmentsEhdr 2 = ⟨PT_NOTE,283,42⟩ := by decide +kernel

theorem twoSegments_hold :
    Holds twoSegmentsBytes (phdrAt twoSegmentsBytes twoSegmentsEhdr 1) (some (232,straySegment)) ∧
      Holds twoSegmentsBytes (phdrAt twoSegmentsBytes twoSegmentsEhdr 2)
        (some (283,unpaddedSegment)) := by
  obtain ⟨-,hstray,hunpadded⟩ := twoSegments_phdrs
  rw [hstray,hunpadded]
  exact ⟨⟨rfl,rfl,by decide +kernel,by decide +kernel,by decide +kernel,
      unpaddedSegment.encode,by decide +kernel⟩,
    ⟨rfl,rfl,by decide +kernel,by decide +kernel,by decide +kernel,[],by decide +kernel⟩⟩

def twoSegments : ElfFile where
  bytes := twoSegmentsBytes
  size_lt := by decide +kernel
  ehdr := twoSegmentsEhdr
  header := by decide +kernel
  magic := by decide
  class64 := by decide
  data2lsb := by decide
  phentsize := by decide
  segments := [none,some (232,straySegment),some (283,unpaddedSegment)]
  phnum := by decide
  table := by decide +kernel
  holds
    | 0,_ => twoSegments_phdrs.1
    | 1,_ => twoSegments_hold.1
    | 2,_ => twoSegments_hold.2
    | n+3,h => absurd h (by simp)

/-- The note that decides is the last of the four; its descriptor is at 319. -/
theorem findFeatureCtlDesc_twoSegments : twoSegments.notes.length = 4 ∧
    findFeatureCtlDesc twoSegments.bytes twoSegments.ehdr = .ok 319 ∧
    (findFeatureCtlDesc twoSegments.bytes twoSegments.ehdr = .ok (-1) ↔
      ∀ p ∈ twoSegments.notes, p.2.isFeatureCtl = false) := by
  obtain ⟨hsearch,hnone⟩ := findFeatureCtlDesc_eq_search twoSegments
  have hfound : twoSegments.search = .ok 319 := by decide +kernel
  exact ⟨by decide +kernel,hsearch.trans hfound,hnone⟩

end TwoSegments

end CheriOsTest.Elf
