import CheriOsTest.NoteWalk
set_option autoImplicit false

/-! What a run of the tool does to its file: it replaces one word at the offset
its search returns, or nothing. The file may hold any bytes at all. -/

namespace CheriOsTest.Elf
open CheriOsTest.Bytes CheriOsTest.CStrings CheriOsTest.Programs

/-- The little-endian word at an offset of the file. -/
def wordAt (f : List UInt8) (off : Nat) : UInt32 := UInt32.ofNat (leNat (pread f off 4))

def patch (f : List UInt8) (off : Nat) (w : UInt32) : List UInt8 :=
  pwrite f off (leBytes 4 w.toNat)

/-- Everything the tool has established about a file before it writes to it. -/
structure Located (f : List UInt8) (ehdr : Elf64Ehdr) (off : Int) : Prop where
  header : xpread Elf64Ehdr.sizeof Elf64Ehdr.ofBytes f 0 = .ok ehdr
  magic : ehdr.eIdent.take 4 = elfMagic
  class64 : ehdr.eIdent.getD EI_CLASS 0 = ELFCLASS64
  data2lsb : ehdr.eIdent.getD EI_DATA 0 = ELFDATA2LSB
  phentsize : ehdr.ePhentsize.toNat = Elf64Phdr.sizeof
  found : findFeatureCtlDesc f ehdr = .ok off
  nonneg : 0 ≤ off
  inside : off.toNat+4 ≤ f.length

theorem patch_length {f : List UInt8} {off : Nat} (h : off+4 ≤ f.length) (w : UInt32) :
    (patch f off w).length = f.length := pwrite_length (by simpa using h)

theorem wordAt_patch {f : List UInt8} {off : Nat} (h : off+4 ≤ f.length) (w : UInt32) :
    wordAt (patch f off w) off = w := by
  have hb : off+(leBytes 4 w.toNat).length ≤ f.length := by simpa using h
  have hp := pread_pwrite_same hb
  rw [leBytes_length] at hp
  have hw := w.toNat_lt
  rw [wordAt,patch,hp,leNat_leBytes 4 _ (by omega),UInt32.ofNat_toNat]

theorem patch_patch {f : List UInt8} {off : Nat} (h : off+4 ≤ f.length) (v w : UInt32) :
    patch (patch f off v) off w = patch f off w :=
  pwrite_pwrite_same (by simpa using h) (by simp)

theorem pread_patch {f : List UInt8} {off : Nat} (h : off+4 ≤ f.length) (w : UInt32)
    {o n : Nat} (hd : o+n ≤ off ∨ off+4 ≤ o) : pread (patch f off w) o n = pread f o n :=
  pread_pwrite_disjoint (by simpa using h) (by simpa using hd)

theorem getElem?_patch {f : List UInt8} {off : Nat} (h : off+4 ≤ f.length) (w : UInt32)
    {i : Nat} (hi : i < off ∨ off+4 ≤ i) : (patch f off w)[i]? = f[i]? := by
  rw [patch,getElem?_pwrite (by simpa using h),leBytes_length]
  rcases hi with hi | hi
  · rw [if_pos hi]
  · rw [if_neg (by omega),if_neg (by omega)]

theorem readFeatures_eq_ok {path : CString} {f : List UInt8} {off : Int} {w : UInt32} :
    readFeatures path f = .ok (off,w) ↔
      ∃ ehdr, Located f ehdr off ∧ w = wordAt f off.toNat := by
  have hw : readU32 (pread f off.toNat 4) 0 = wordAt f off.toNat := by
    simp [readU32,wordAt,pread,List.take_take]
  simp only [readFeatures,bind_eq_ok,failIf_eq_ok,not_or,ne_eq,not_not,not_lt,
    xpread_eq_ok (by decide : 0 < 4),pure,Except.pure,Except.ok.injEq,Prod.mk.injEq]
  constructor
  · intro h
    obtain ⟨ehdr,hh,-,hm,-,⟨hc,hd⟩,-,hp,off',hf,-,hn,w',⟨-,hl,rfl⟩,rfl,rfl⟩ := h
    exact ⟨ehdr,⟨hh,hm,hc,hd,hp,hf,hn,hl⟩,hw⟩
  · intro h
    obtain ⟨ehdr,l,rfl⟩ := h
    exact ⟨ehdr,l.header,(),l.magic,(),⟨l.class64,l.data2lsb⟩,(),l.phentsize,off,l.found,
      (),l.nonneg,_,⟨l.nonneg,l.inside,hw⟩,rfl,rfl⟩

theorem Result.status_error (e : Exit) (f : List UInt8) :
    (Result.mk (.error e) f).status = 1 := by cases e <;> rfl

/-- All that a run can do: leave the file alone and fail, or patch the word. -/
theorem main_cases (sys : Sys) (argv : List CString) (f : List UInt8) :
    (∃ e, main sys argv f = ⟨.error e,f⟩) ∨
      ∃ name arg path req ehdr off, argv = [name,arg,path] ∧ parseRequest arg = some req ∧
        Located f ehdr off ∧
        main sys argv f = ⟨.ok (),patch f off.toNat (req.apply (wordAt f off.toNat))⟩ := by
  unfold main
  split
  · rename_i name arg path
    cases hreq : parseRequest arg with
    | none => exact .inl ⟨_,rfl⟩
    | some req =>
      cases ho : sys.opens with
      | false => exact .inl ⟨_,rfl⟩
      | true =>
        cases hr : readFeatures path f with
        | error e => exact .inl ⟨_,rfl⟩
        | ok r =>
          obtain ⟨off,w⟩ := r
          cases hp : sys.pwrites with
          | false => exact .inl ⟨_,rfl⟩
          | true =>
            obtain ⟨ehdr,hl,rfl⟩ := readFeatures_eq_ok.mp hr
            exact .inr ⟨name,arg,path,req,ehdr,off,rfl,hreq,hl,rfl⟩
  · exact .inl ⟨_,rfl⟩

theorem main_of_located {f : List UInt8} {ehdr : Elf64Ehdr} {off : Int} {req : Request}
    {name arg path : CString} (hreq : parseRequest arg = some req) (hl : Located f ehdr off) :
    main ⟨true,true⟩ [name,arg,path] f =
      ⟨.ok (),patch f off.toNat (req.apply (wordAt f off.toNat))⟩ := by
  have hr : readFeatures path f = .ok (off,wordAt f off.toNat) :=
    readFeatures_eq_ok.mpr ⟨ehdr,hl,rfl⟩
  simp [main,hreq,hr,patch]

/-- The bit numbers of the two feature bits, as the two requests name them. -/
def Request.setBit : Request → Nat
  | .cherirevoke => 31
  | .nocherirevoke => 5

def Request.clearBit : Request → Nat
  | .cherirevoke => 5
  | .nocherirevoke => 31

theorem Request.apply_bit (r : Request) (w : UInt32) (k : Nat) :
    (r.apply w).toBitVec.getLsbD k =
      if k = r.setBit then true else if k = r.clearBit then false
      else w.toBitVec.getLsbD k := by
  have h31 : NT_FREEBSD_FCTL_CHERI_REVOKE_ENABLE.toBitVec = BitVec.twoPow 32 31 := rfl
  have h5 : NT_FREEBSD_FCTL_CHERI_REVOKE_DISABLE.toBitVec = BitVec.twoPow 32 5 := rfl
  have hw : 32 ≤ k → w.toBitVec.getLsbD k = false := BitVec.getLsbD_of_ge _ _
  cases r
  · simp only [apply,setBit,clearBit,bitToSet,bitToClear,UInt32.toBitVec_or,
      UInt32.toBitVec_and,UInt32.toBitVec_not,h31,h5,BitVec.getLsbD_or,BitVec.getLsbD_and,
      BitVec.getLsbD_not,BitVec.getLsbD_twoPow]
    grind
  · simp only [apply,setBit,clearBit,bitToSet,bitToClear,UInt32.toBitVec_or,
      UInt32.toBitVec_and,UInt32.toBitVec_not,h31,h5,BitVec.getLsbD_or,BitVec.getLsbD_and,
      BitVec.getLsbD_not,BitVec.getLsbD_twoPow]
    grind

/-- The frame of a run, for every file and every argument vector. -/
theorem main_frame (sys : Sys) (argv : List CString) (f : List UInt8) :
    ((main sys argv f).status = 0 →
      ∃ name arg path req ehdr off, argv = [name,arg,path] ∧ parseRequest arg = some req ∧
        xpread Elf64Ehdr.sizeof Elf64Ehdr.ofBytes f 0 = .ok ehdr ∧
        findFeatureCtlDesc f ehdr = .ok off ∧ 0 ≤ off ∧ off.toNat+4 ≤ f.length ∧
        (main sys argv f).file.length = f.length ∧
        (∀ i, i < off.toNat ∨ off.toNat+4 ≤ i → (main sys argv f).file[i]? = f[i]?) ∧
        (wordAt (main sys argv f).file off.toNat).toBitVec.getLsbD req.setBit = true ∧
        (wordAt (main sys argv f).file off.toNat).toBitVec.getLsbD req.clearBit = false ∧
        ∀ k, k ≠ req.setBit → k ≠ req.clearBit →
          (wordAt (main sys argv f).file off.toNat).toBitVec.getLsbD k =
            (wordAt f off.toNat).toBitVec.getLsbD k) ∧
    ((main sys argv f).status ≠ 0 → (main sys argv f).file = f) := by
  rcases main_cases sys argv f with ⟨e,hm⟩ | ⟨name,arg,path,req,ehdr,off,ha,hreq,hl,hm⟩
  · rw [hm,Result.status_error]
    exact ⟨fun h => absurd h (by decide),fun _ => rfl⟩
  rw [hm]
  refine ⟨fun _ => ?_,fun h => absurd rfl h⟩
  have hin := hl.inside
  have hne : req.clearBit ≠ req.setBit := by cases req <;> decide
  refine ⟨name,arg,path,req,ehdr,off,ha,hreq,hl.header,hl.found,hl.nonneg,hin,?_⟩
  rw [wordAt_patch hin]
  refine ⟨patch_length hin _,fun i hi => getElem?_patch hin _ hi,?_,?_,?_⟩
  · rw [Request.apply_bit,if_pos rfl]
  · rw [Request.apply_bit,if_neg hne,if_pos rfl]
  · intro k hs hc
    rw [Request.apply_bit,if_neg hs,if_neg hc]

/-- A note header that the search reads, up to and including its match. -/
def VisitedNote (f : List UInt8) (ehdr : Elf64Ehdr) (q : UInt64) : Prop :=
  ∃ i phdr, i < ehdr.ePhnum.toNat ∧ (∀ j < i, Passes f ehdr j) ∧
    xpreadPhdr f ehdr i = .ok phdr ∧ phdr.pType = PT_NOTE ∧
    Visits f (phdr.pOffset+phdr.pFilesz) phdr.pOffset q

/-- The four bytes at `off` meet neither the ELF header, nor the program header
table, nor the header and the eight-byte name of a visited note. -/
structure Apart (f : List UInt8) (ehdr : Elf64Ehdr) (off : Nat) : Prop where
  header : Elf64Ehdr.sizeof ≤ off
  table : off+4 ≤ ehdr.ePhoff.toNat ∨
    ehdr.ePhoff.toNat+ehdr.ePhnum.toNat*Elf64Phdr.sizeof ≤ off
  nhdr : ∀ q, VisitedNote f ehdr q →
    off+4 ≤ q.toNat ∨ q.toNat+Elf64Nhdr.sizeof ≤ off
  name : ∀ q, VisitedNote f ehdr q → (nhdrAt f q).nNamesz = 8 →
    off+4 ≤ q.toNat+12 ∨ q.toNat+20 ≤ off

theorem noteStep_congr {f g : List UInt8} {pos : UInt64}
    (h₁ : pread g pos.toNat 12 = pread f pos.toNat 12)
    (h₂ : (nhdrAt f pos).nNamesz = 8 → pread g (pos.toNat+12) 8 = pread f (pos.toNat+12) 8) :
    noteStep g pos = noteStep f pos := by
  have hr : xpreadNhdr g pos = xpreadNhdr f pos := by
    refine xpread_congr fun h => ?_
    rw [toOff_of_lt ((toOff_nonneg_iff pos).mp h)]
    exact h₁
  unfold noteStep
  rw [hr]
  cases hn : xpreadNhdr f pos with
  | error e => simp only [bind,Except.bind]
  | ok nhdr =>
    obtain ⟨hp,-,rfl⟩ := (xpreadNhdr_eq_ok nhdr).mp hn
    have hx : (nhdrAt f pos).nNamesz = 8 → xpreadName g (pos+12) = xpreadName f (pos+12) := by
      intro h8
      refine xpread_congr fun h => ?_
      have hl : (pos+12).toNat = pos.toNat+12 := by
        rw [UInt64.toNat_add]
        change (pos.toNat+12)%2^64 = pos.toNat+12
        omega
      rw [toOff_of_lt ((toOff_nonneg_iff _).mp h),Int.toNat_natCast,hl]
      exact h₂ h8
    by_cases h8 : (nhdrAt f pos).nNamesz = 8
    · simp only [bind,Except.bind,hx h8]
    · simp [bind,Except.bind,h8]

/-- The offset of a program header the search can read is not wrapped. -/
theorem xpreadPhdr_offset {ehdr : Elf64Ehdr} {i : Nat}
    (hsz : ehdr.ePhentsize.toNat = Elf64Phdr.sizeof) (hi : i < ehdr.ePhnum.toNat)
    (h0 : ehdr.ePhoff.toNat < 2^63) :
    toOff (ehdr.ePhoff+UInt64.ofNat i*ehdr.ePhentsize.toUInt64) < 0 ∨
      (toOff (ehdr.ePhoff+UInt64.ofNat i*ehdr.ePhentsize.toUInt64)).toNat =
        ehdr.ePhoff.toNat+i*Elf64Phdr.sizeof := by
  have hn := ehdr.ePhnum.toNat_lt
  have h56 : Elf64Phdr.sizeof = 56 := rfl
  have ho : (ehdr.ePhoff+UInt64.ofNat i*ehdr.ePhentsize.toUInt64).toNat =
      ehdr.ePhoff.toNat+i*Elf64Phdr.sizeof := by
    rw [UInt64.toNat_add,UInt64.toNat_mul,UInt16.toNat_toUInt64,hsz,UInt64.toNat_ofNat',h56]
    omega
  by_cases h : toOff (ehdr.ePhoff+UInt64.ofNat i*ehdr.ePhentsize.toUInt64) < 0
  · exact .inl h
  · have hlt := (toOff_nonneg_iff _).mp (Int.not_lt.mp h)
    rw [toOff_of_lt hlt,Int.toNat_natCast,ho]
    exact .inr rfl

theorem FirstMatch.ePhoff_lt {f : List UInt8} {ehdr : Elf64Ehdr} {i : Nat}
    {phdr : Elf64Phdr} {q : UInt64} (h : FirstMatch f ehdr i phdr q) :
    ehdr.ePhoff.toNat < 2^63 := by
  have h0 : ∃ p, xpreadPhdr f ehdr 0 = .ok p := by
    rcases Nat.eq_zero_or_pos i with rfl | hi
    · exact ⟨phdr,h.header⟩
    · obtain ⟨p,hp,-⟩ := h.earlier 0 hi
      exact ⟨p,hp⟩
  obtain ⟨p,hp⟩ := h0
  have ho : ehdr.ePhoff+UInt64.ofNat 0*ehdr.ePhentsize.toUInt64 = ehdr.ePhoff := by
    rw [show UInt64.ofNat 0 = 0 from rfl,UInt64.zero_mul,UInt64.add_zero]
  rw [xpreadPhdr,ho,xpread_toOff_eq_ok (by decide)] at hp
  exact hp.1

theorem Located.firstMatch {f : List UInt8} {ehdr : Elf64Ehdr} {off : Int}
    (h : Located f ehdr off) :
    ∃ i phdr q, FirstMatch f ehdr i phdr q ∧ q.toNat+20 ≤ f.length ∧
      off = (q.toNat+20 : Nat) := by
  rcases findFeatureCtlDesc_cases h.found with ⟨ho,-⟩ | ⟨i,phdr,q,hm,ho⟩
  · have hn := h.nonneg
    omega
  · obtain ⟨-,h₁,h₂,-⟩ := noteStep_inl hm.stops
    have hp : (q+20).toNat = q.toNat+20 := by
      rw [UInt64.toNat_add]
      change (q.toNat+20)%2^64 = q.toNat+20
      omega
    have hn := h.nonneg
    rw [ho] at hn
    refine ⟨i,phdr,q,hm,h₂,?_⟩
    rw [ho,toOff_of_lt ((toOff_nonneg_iff _).mp hn),hp]

theorem findFeatureCtlDesc_patch {f : List UInt8} {ehdr : Elf64Ehdr} {off : Int}
    (h : Located f ehdr off) (ha : Apart f ehdr off.toNat) (w : UInt32) :
    findFeatureCtlDesc (patch f off.toNat w) ehdr = .ok off := by
  have hin := h.inside
  obtain ⟨i,phdr,q,hm,-,-⟩ := h.firstMatch
  have hi := hm.index
  have hf : toOff (q+20) = off := by
    have hfound := findFeatureCtlDesc_of_match hm
    rw [h.found] at hfound
    exact (Except.ok.inj hfound).symm
  have hphdr : ∀ j ≤ i, xpreadPhdr (patch f off.toNat w) ehdr j = xpreadPhdr f ehdr j := by
    intro j hj
    refine xpread_congr fun hnn => ?_
    rcases xpreadPhdr_offset h.phentsize (by omega : j < _) hm.ePhoff_lt with hneg | ho
    · omega
    have ht := ha.table
    have h56 : Elf64Phdr.sizeof = 56 := rfl
    rw [h56] at ht
    rw [ho,h56]
    exact pread_patch hin w (by omega)
  have hnote : ∀ j ≤ i, ∀ p, xpreadPhdr f ehdr j = .ok p → p.pType = PT_NOTE →
      ∀ r, Visits f (p.pOffset+p.pFilesz) p.pOffset r →
        noteStep (patch f off.toNat w) r = noteStep f r := by
    intro j hj p hp ht r hv
    have hr : VisitedNote f ehdr r :=
      ⟨j,p,by omega,fun k hk => hm.earlier k (by omega),hp,ht,hv⟩
    have hd := ha.nhdr r hr
    have h12 : Elf64Nhdr.sizeof = 12 := rfl
    rw [h12] at hd
    exact noteStep_congr (pread_patch hin w (by omega))
      (fun h8 => pread_patch hin w (by have := ha.name r hr h8; omega))
  rw [findFeatureCtlDesc_congr hm hphdr hnote,hf]

/-- A patched file leads the tool to the same word. -/
theorem Located.of_patch {f : List UInt8} {ehdr : Elf64Ehdr} {off : Int}
    (h : Located f ehdr off) (ha : Apart f ehdr off.toNat) (w : UInt32) :
    Located (patch f off.toNat w) ehdr off := by
  have hin := h.inside
  have hhdr := ha.header
  refine ⟨?_,h.magic,h.class64,h.data2lsb,h.phentsize,findFeatureCtlDesc_patch h ha w,
    h.nonneg,?_⟩
  · rw [← h.header]
    exact xpread_congr fun _ => pread_patch hin w (.inl (by simpa using hhdr))
  · rw [patch_length hin]; exact hin

theorem Request.apply_apply (a b : Request) (w : UInt32) :
    b.apply (a.apply w) = b.apply w := by
  apply UInt32.toBitVec_inj.mp
  apply BitVec.eq_of_getLsbD_eq
  intro k _
  simp only [Request.apply_bit]
  cases a <;> cases b <;> simp only [setBit,clearBit] <;> grind

def runRequest (name path : CString) (req : Request) (f : List UInt8) : Result :=
  main ⟨true,true⟩ [name,req.arg,path] f

/-- Runs of the tool on one file, one after the other, while they succeed. -/
def runRequests (name path : CString) : List Request → List UInt8 → Except Exit (List UInt8)
  | [], f => .ok f
  | r :: rs, f => do
      let _ ← (runRequest name path r f).exit
      runRequests name path rs (runRequest name path r f).file

theorem parseRequest_arg (req : Request) : parseRequest req.arg = some req := by
  cases req <;> decide

theorem runRequest_patch {f : List UInt8} {ehdr : Elf64Ehdr} {off : Int}
    (h : Located f ehdr off) (ha : Apart f ehdr off.toNat) (name path : CString)
    (req : Request) (w : UInt32) :
    runRequest name path req (patch f off.toNat w) =
      ⟨.ok (),patch f off.toNat (req.apply w)⟩ := by
  rw [runRequest,main_of_located (parseRequest_arg req) (h.of_patch ha w),
    wordAt_patch h.inside,patch_patch h.inside]

theorem runRequests_patch {f : List UInt8} {ehdr : Elf64Ehdr} {off : Int}
    (h : Located f ehdr off) (ha : Apart f ehdr off.toNat) (name path : CString)
    (rs : List Request) (w : UInt32) :
    runRequests name path rs (patch f off.toNat w) =
      .ok (patch f off.toNat (rs.foldl (fun v r => r.apply v) w)) := by
  induction rs generalizing w with
  | nil => rfl
  | cons r rs ih =>
    rw [runRequests,runRequest_patch h ha]
    exact ih (r.apply w)

theorem patch_wordAt {f : List UInt8} {off : Nat} (h : off+4 ≤ f.length) :
    patch f off (wordAt f off) = f := by
  have hl : (pread f off 4).length = 4 := (pread_full_iff f off 4 (by decide)).mpr h
  have hb := leBytes_leNat (pread f off 4)
  have hlt := leNat_lt (pread f off 4)
  rw [hl] at hb hlt
  have hw : (wordAt f off).toNat = leNat (pread f off 4) := by
    rw [wordAt,UInt32.toNat_ofNat']; omega
  apply List.ext_getElem?
  intro i
  rw [patch,getElem?_pwrite (by simpa using h),hw,hb,hl]
  by_cases h₁ : i < off
  · rw [if_pos h₁]
  by_cases h₂ : i < off+4
  · rw [if_neg h₁,if_pos h₂,getElem?_pread,if_pos (by omega),
      show off+(i-off) = i by omega]
  · rw [if_neg h₁,if_neg h₂]

theorem foldl_apply_last (rs : List Request) (b : Request) (w : UInt32) :
    (rs ++ [b]).foldl (fun v r => r.apply v) w = b.apply w := by
  rw [List.foldl_append]
  change b.apply (rs.foldl (fun v r => r.apply v) w) = b.apply w
  induction rs generalizing w with
  | nil => rfl
  | cons r rs ih => rw [List.foldl_cons,ih,Request.apply_apply]

/-- The last request wins, whatever was asked before it. -/
theorem last_request_wins (name path : CString) (f : List UInt8) (r : Request)
    (hrun : (runRequest name path r f).status = 0)
    (hapart : ∀ ehdr off, Located f ehdr off → Apart f ehdr off.toNat) :
    (∀ a b, (runRequest name path b (runRequest name path a f).file).status = 0 ∧
      (runRequest name path b (runRequest name path a f).file).file =
        (runRequest name path b f).file) ∧
    (∀ rs b, runRequests name path (rs ++ [b]) f = .ok (runRequest name path b f).file) ∧
    ∀ ehdr off, Located f ehdr off → ∀ rs b g, runRequests name path (rs ++ [b]) f = .ok g →
      ¬ ((wordAt g off.toNat).toBitVec.getLsbD 31 = true ∧
        (wordAt g off.toNat).toBitVec.getLsbD 5 = true) := by
  have hone : ∀ ehdr off, Located f ehdr off → ∀ b, runRequest name path b f =
      ⟨.ok (),patch f off.toNat (b.apply (wordAt f off.toNat))⟩ := by
    intro ehdr off hl b
    have h := runRequest_patch hl (hapart ehdr off hl) name path b (wordAt f off.toNat)
    rwa [patch_wordAt hl.inside] at h
  have hall : ∀ ehdr off, Located f ehdr off → ∀ rs b, runRequests name path (rs ++ [b]) f =
      .ok (patch f off.toNat (b.apply (wordAt f off.toNat))) := by
    intro ehdr off hl rs b
    have h := runRequests_patch hl (hapart ehdr off hl) name path (rs ++ [b])
      (wordAt f off.toNat)
    rwa [patch_wordAt hl.inside,foldl_apply_last] at h
  have hloc : ∃ ehdr off, Located f ehdr off := by
    rcases main_cases ⟨true,true⟩ [name,r.arg,path] f with ⟨e,hm⟩ |
      ⟨_,_,_,_,ehdr,off,_,_,hl,_⟩
    · rw [runRequest,hm,Result.status_error] at hrun
      exact absurd hrun (by decide)
    · exact ⟨ehdr,off,hl⟩
  obtain ⟨ehdr,off,hl⟩ := hloc
  refine ⟨fun a b => ?_,fun rs b => ?_,fun ehdr' off' hl' rs b g hg => ?_⟩
  · rw [hone ehdr off hl a,runRequest_patch hl (hapart ehdr off hl),Request.apply_apply,
      hone ehdr off hl b]
    exact ⟨rfl,rfl⟩
  · rw [hall ehdr off hl,hone ehdr off hl b]
  · rw [hall ehdr' off' hl'] at hg
    cases hg
    rw [wordAt_patch hl'.inside,Request.apply_bit,Request.apply_bit]
    cases b <;> simp [Request.setBit,Request.clearBit]

/-- A file laid out as the repository's own test writes it, one note in one
segment, with `filesz` as the size of the segment. -/
def elfWithNote (filesz : Nat) : List UInt8 :=
  elfMagic ++ [ELFCLASS64,ELFDATA2LSB] ++ List.replicate 26 0 ++ leBytes 8 64 ++
    List.replicate 14 0 ++ leBytes 2 56 ++ leBytes 2 1 ++ List.replicate 6 0 ++
    (leBytes 4 4 ++ List.replicate 4 0 ++ leBytes 8 120 ++ List.replicate 16 0 ++
      leBytes 8 filesz ++ List.replicate 16 0) ++
    (leBytes 4 8 ++ leBytes 4 4 ++ leBytes 4 4) ++ freebsdName ++ leBytes 4 0

def noteElfEhdr : Elf64Ehdr := ⟨elfMagic ++ [2,1] ++ List.replicate 10 0,64,56,1⟩

/-- `write_test_elf(true)`. -/
def writeTestElf : List UInt8 := elfWithNote 24

theorem writeTestElf_apart (ehdr : Elf64Ehdr) (off : Int) (h : Located writeTestElf ehdr off) :
    Apart writeTestElf ehdr off.toNat := by
  have he : ehdr = noteElfEhdr := by
    have hh : Except.ok noteElfEhdr = Except.ok ehdr := h.header
    exact (Except.ok.inj hh).symm
  subst he
  have hone : noteElfEhdr.ePhnum.toNat = 1 := rfl
  have hphdr : xpreadPhdr writeTestElf noteElfEhdr 0 = .ok ⟨4,120,24⟩ := by rfl
  have hstep : noteStep writeTestElf 120 = .ok (.inl 140) := by rfl
  have hv : ∀ q, VisitedNote writeTestElf noteElfEhdr q →
      q = 120 := by
    intro q hq
    obtain ⟨i,phdr,hi,-,hp,-,hv⟩ := hq
    have h0 : i = 0 := by omega
    rw [h0,hphdr] at hp
    cases hp
    cases hv with
    | here _ => rfl
    | next _ hs _ =>
      rw [hstep] at hs
      cases hs
  obtain ⟨i,phdr,q,hm,-,hoff⟩ := h.firstMatch
  have hq := hv q ⟨i,phdr,hm.index,hm.earlier,hm.header,hm.note,hm.visits⟩
  have ho : off.toNat = 140 := by rw [hoff,hq]; rfl
  rw [ho]
  refine ⟨by decide,.inr (by decide),fun q hq => ?_,fun q hq _ => ?_⟩
  · rw [hv q hq]; exact .inr (by decide)
  · rw [hv q hq]; exact .inr (by decide)

theorem last_request_wins_test_elf :
    (runRequest [] [] .nocherirevoke (runRequest [] [] .cherirevoke writeTestElf).file).file =
      (runRequest [] [] .nocherirevoke writeTestElf).file :=
  ((last_request_wins [] [] writeTestElf .cherirevoke (by decide +kernel)
    writeTestElf_apart).1 .cherirevoke .nocherirevoke).2

end CheriOsTest.Elf
