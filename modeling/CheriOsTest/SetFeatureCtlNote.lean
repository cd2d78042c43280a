import CheriOsTest.Align
import CheriOsTest.CStrings
import CheriOsTest.ElfDefs
import CheriOsTest.Programs
set_option autoImplicit false

/-! set-feature-ctl-note: a hand-written ELF note search followed by a patch of
one 32-bit word. A file is a list of bytes; every exit of the program is an
`Exit`, and the loops below are total on every list of bytes. -/

namespace CheriOsTest.Elf
open CheriOsTest.Bytes CheriOsTest.CStrings CheriOsTest.Align CheriOsTest.Programs

/-- `err` adds the text of errno to its message, `errx` does not. -/
inductive Exit where
  | err : CString → Exit
  | errx : CString → Exit
  deriving DecidableEq, Repr

def Exit.status : Exit → Nat
  | .err _ | .errx _ => 1

/-- `(x + 3) & ~3u` in 32 bits: the sum wraps. -/
def roundup4 (x : UInt32) : UInt32 := (x+3) &&& ~~~3

def usage : Exit := .errx (cstr "usage: set-feature-ctl-note +cherirevoke|+nocherirevoke <file>")

/-- `static_cast<off_t>`: offsets from 2^63 on become negative. -/
def toOff (x : UInt64) : Int := x.toBitVec.toInt

/-- A negative offset and a short read both end in `err(1, "pread")`. -/
def xpread {T : Type} (sizeof : Nat) (ofBytes : List UInt8 → T) (f : List UInt8)
    (off : Int) : Except Exit T :=
  if off < 0 then .error (.err (cstr "pread"))
  else
    let buf := pread f off.toNat sizeof
    if buf.length ≠ sizeof then .error (.err (cstr "pread")) else .ok (ofBytes buf)

theorem toOff_nonneg_iff (x : UInt64) : 0 ≤ toOff x ↔ x.toNat < 2^63 := by
  have hx := x.toNat_lt
  rw [toOff,BitVec.toInt_eq_toNat_cond]
  simp only [UInt64.toNat_toBitVec]
  split <;> omega

theorem toOff_of_lt {x : UInt64} (h : x.toNat < 2^63) : toOff x = x.toNat := by
  rw [toOff,BitVec.toInt_eq_toNat_cond]
  simp only [UInt64.toNat_toBitVec]
  rw [if_pos (by omega)]

theorem xpread_eq_ok {T : Type} {sizeof : Nat} {ofBytes : List UInt8 → T} {f : List UInt8}
    {off : Int} (hn : 0 < sizeof) (t : T) :
    xpread sizeof ofBytes f off = .ok t ↔
      0 ≤ off ∧ off.toNat+sizeof ≤ f.length ∧ ofBytes (pread f off.toNat sizeof) = t := by
  unfold xpread
  by_cases h₀ : off < 0
  · simp [h₀]
  · have hl := pread_full_iff f off.toNat sizeof hn
    by_cases h₁ : off.toNat+sizeof ≤ f.length
    · have h₂ := hl.mpr h₁
      simp [h₀,h₁,h₂]; omega
    · have h₂ : ¬ (pread f off.toNat sizeof).length = sizeof := fun h => h₁ (hl.mp h)
      simp only [h₀,if_false,h₂,ne_eq,not_false_eq_true,if_true,h₁,false_and,and_false,
        reduceCtorEq]

theorem xpread_toOff_eq_ok {T : Type} {sizeof : Nat} {ofBytes : List UInt8 → T}
    {f : List UInt8} {x : UInt64} (hn : 0 < sizeof) (t : T) :
    xpread sizeof ofBytes f (toOff x) = .ok t ↔
      x.toNat < 2^63 ∧ x.toNat+sizeof ≤ f.length ∧ ofBytes (pread f x.toNat sizeof) = t := by
  rw [xpread_eq_ok hn,toOff_nonneg_iff]
  constructor
  · rintro ⟨h₁,h₂,h₃⟩
    rw [toOff_of_lt h₁,Int.toNat_natCast] at h₂ h₃
    exact ⟨h₁,h₂,h₃⟩
  · rintro ⟨h₁,h₂,h₃⟩
    rw [toOff_of_lt h₁,Int.toNat_natCast]
    exact ⟨h₁,h₂,h₃⟩

theorem xpread_congr {T : Type} {sizeof : Nat} {ofBytes : List UInt8 → T}
    {f g : List UInt8} {off : Int} (hp : 0 ≤ off → pread g off.toNat sizeof =
      pread f off.toNat sizeof) :
    xpread sizeof ofBytes g off = xpread sizeof ofBytes f off := by
  unfold xpread
  by_cases h₀ : off < 0
  · simp only [h₀,if_true]
  · rw [hp (by omega)]

theorem roundup4_toNat (x : UInt32) : (roundup4 x).toNat = (x.toNat+3)%2^32/4*4 := by
  have h := toNat_and_not_mask (x.toBitVec+3) 2
  have h₃ : (3 : UInt32).toBitVec = BitVec.ofNat 32 (2^2-1) := rfl
  rw [roundup4,← UInt32.toNat_toBitVec,UInt32.toBitVec_and,UInt32.toBitVec_not,
    UInt32.toBitVec_add,h₃]
  rw [show (x.toBitVec+BitVec.ofNat 32 (2^2-1)) = x.toBitVec+3 from rfl,h,BitVec.toNat_add]
  rfl

theorem roundup4_of_lt {x : UInt32} (h : x.toNat+3 < 2^32) :
    (roundup4 x).toNat = roundUp 4 x.toNat := by
  rw [roundup4_toNat,Nat.mod_eq_of_lt h,roundUp]

def xpreadNhdr (f : List UInt8) (pos : UInt64) : Except Exit Elf64Nhdr :=
  xpread Elf64Nhdr.sizeof Elf64Nhdr.ofBytes f (toOff pos)

def xpreadName (f : List UInt8) (pos : UInt64) : Except Exit (List UInt8) :=
  xpread 8 id f (toOff pos)

def freebsdName : List UInt8 := cstr "FreeBSD" ++ [0]

def descTooSmall : Exit := .errx (cstr "feature control note descriptor is too small")

def noteStep (f : List UInt8) (pos : UInt64) : Except Exit (Int ⊕ UInt64) := do
  let nhdr ← xpreadNhdr f pos
  let pos := pos+12
  -- both sizes are added in 32 bits before they meet the 64-bit cursor
  let next := pos+(roundup4 nhdr.nNamesz+roundup4 nhdr.nDescsz).toUInt64
  if nhdr.nNamesz == 8 && nhdr.nType == NT_FREEBSD_FEATURE_CTL then
    let name ← xpreadName f pos
    if name = freebsdName then
      if nhdr.nDescsz < 4 then .error descTooSmall
      else .ok (.inl (toOff (pos+(roundup4 nhdr.nNamesz).toUInt64)))
    else .ok (.inr next)
  else .ok (.inr next)

def nhdrAt (f : List UInt8) (pos : UInt64) : Elf64Nhdr :=
  Elf64Nhdr.ofBytes (pread f pos.toNat Elf64Nhdr.sizeof)

/-- The note header at `pos` has the owner, the name and the type looked for. -/
def IsFeatureCtl (f : List UInt8) (pos : UInt64) : Prop :=
  (nhdrAt f pos).nNamesz = 8 ∧ (nhdrAt f pos).nType = NT_FREEBSD_FEATURE_CTL ∧
    pread f (pos.toNat+12) 8 = freebsdName

/-- How far the source's 32-bit sum moves the cursor past a note header. -/
def advance (nhdr : Elf64Nhdr) : Nat :=
  ((roundup4 nhdr.nNamesz).toNat+(roundup4 nhdr.nDescsz).toNat)%2^32

theorem xpreadNhdr_eq_ok {f : List UInt8} {pos : UInt64} (nhdr : Elf64Nhdr) :
    xpreadNhdr f pos = .ok nhdr ↔
      pos.toNat < 2^63 ∧ pos.toNat+12 ≤ f.length ∧ nhdrAt f pos = nhdr :=
  xpread_toOff_eq_ok (by decide) nhdr

theorem xpreadName_eq_ok {f : List UInt8} {pos : UInt64} (hp : pos.toNat < 2^63)
    (name : List UInt8) :
    xpreadName f (pos+12) = .ok name ↔
      pos.toNat+12 < 2^63 ∧ pos.toNat+20 ≤ f.length ∧ pread f (pos.toNat+12) 8 = name := by
  have h : (pos+12).toNat = pos.toNat+12 := by
    rw [UInt64.toNat_add,show (12 : UInt64).toNat = 12 from rfl]; omega
  rw [xpreadName,xpread_toOff_eq_ok (by decide),h]
  simp only [id]

/-- What one round can do: stop at a feature control note whose descriptor
holds a word, or move the cursor past a note that is no such note. -/
theorem noteStep_cases {f : List UInt8} {pos : UInt64} {r : Int ⊕ UInt64}
    (h : noteStep f pos = .ok r) :
    pos.toNat < 2^63 ∧ pos.toNat+12 ≤ f.length ∧
      ((r = .inl (toOff (pos+20)) ∧ pos.toNat+20 ≤ f.length ∧ IsFeatureCtl f pos ∧
          4 ≤ (nhdrAt f pos).nDescsz) ∨
        ∃ pos', r = .inr pos' ∧ pos'.toNat = pos.toNat+12+advance (nhdrAt f pos) ∧
          ¬ IsFeatureCtl f pos) := by
  simp only [noteStep,bind_eq_ok,xpreadNhdr_eq_ok] at h
  obtain ⟨nhdr,⟨h₁,h₂,rfl⟩,h⟩ := h
  have hn : (pos+12+(roundup4 (nhdrAt f pos).nNamesz+
      roundup4 (nhdrAt f pos).nDescsz).toUInt64).toNat =
      pos.toNat+12+advance (nhdrAt f pos) := by
    have hs : ((roundup4 (nhdrAt f pos).nNamesz+
        roundup4 (nhdrAt f pos).nDescsz).toUInt64).toNat = advance (nhdrAt f pos) := by
      rw [UInt32.toNat_toUInt64,UInt32.toNat_add,advance]
    have ha : advance (nhdrAt f pos) < 2^32 := Nat.mod_lt _ (by decide)
    rw [UInt64.toNat_add,UInt64.toNat_add,hs,show (12 : UInt64).toNat = 12 from rfl]
    omega
  refine ⟨h₁,h₂,?_⟩
  split at h
  · rename_i hc
    simp only [Bool.and_eq_true,beq_iff_eq] at hc
    rw [bind_eq_ok] at h
    obtain ⟨name,hname,h⟩ := h
    rw [xpreadName_eq_ok h₁] at hname
    obtain ⟨-,h₃,rfl⟩ := hname
    split at h
    · rename_i hf
      split at h
      · cases h
      · rename_i hd
        cases h
        refine .inl ⟨?_,h₃,⟨hc.1,hc.2,hf⟩,?_⟩
        · rw [hc.1,UInt64.add_assoc]; rfl
        · simpa [UInt32.not_lt] using hd
    · rename_i hf
      cases h
      exact .inr ⟨_,rfl,hn,fun hm => hf hm.2.2⟩
  · rename_i hc
    cases h
    refine .inr ⟨_,rfl,hn,fun hm => hc ?_⟩
    simp [hm.1,hm.2.1]

theorem noteStep_inl {f : List UInt8} {pos : UInt64} {off : Int}
    (h : noteStep f pos = .ok (.inl off)) :
    off = toOff (pos+20) ∧ pos.toNat < 2^63 ∧ pos.toNat+20 ≤ f.length ∧
      IsFeatureCtl f pos ∧ 4 ≤ (nhdrAt f pos).nDescsz := by
  obtain ⟨h₁,-,⟨hr,h₂,h₃,h₄⟩ | ⟨pos',hr,-⟩⟩ := noteStep_cases h
  · exact ⟨Sum.inl.inj hr,h₁,h₂,h₃,h₄⟩
  · cases hr

theorem noteStep_inr {f : List UInt8} {pos pos' : UInt64}
    (h : noteStep f pos = .ok (.inr pos')) :
    pos.toNat+12 ≤ f.length ∧ pos'.toNat = pos.toNat+12+advance (nhdrAt f pos) ∧
      ¬ IsFeatureCtl f pos := by
  obtain ⟨-,h₁,⟨hr,-⟩ | ⟨q,hr,h₂,h₃⟩⟩ := noteStep_cases h
  · cases hr
  · cases hr; exact ⟨h₁,h₂,h₃⟩

/-- The inner loop, `while (pos + sizeof(Elf64_Nhdr) <= end)`. The measure is what
the file still holds after the cursor: `end - pos` would not do, as both wrap. -/
def noteLoop (f : List UInt8) (stop pos : UInt64) : Except Exit (Option Int) :=
  if pos+12 ≤ stop then
    match _h : noteStep f pos with
    | .error e => .error e
    | .ok (.inl off) => .ok (some off)
    | .ok (.inr pos') => noteLoop f stop pos'
  else .ok none
termination_by f.length-pos.toNat
decreasing_by
  obtain ⟨h₁,h₂,-⟩ := noteStep_inr _h
  omega

def xpreadPhdr (f : List UInt8) (ehdr : Elf64Ehdr) (i : Nat) : Except Exit Elf64Phdr :=
  xpread Elf64Phdr.sizeof Elf64Phdr.ofBytes f
    (toOff (ehdr.ePhoff+UInt64.ofNat i*ehdr.ePhentsize.toUInt64))

def phdrLoop (f : List UInt8) (ehdr : Elf64Ehdr) : Nat → Nat → Except Exit Int
  | 0, _ => .ok (-1)
  | n+1, i => do
      let phdr ← xpreadPhdr f ehdr i
      if phdr.pType ≠ PT_NOTE then phdrLoop f ehdr n (i+1)
      else match ← noteLoop f (phdr.pOffset+phdr.pFilesz) phdr.pOffset with
        | some off => .ok off
        | none => phdrLoop f ehdr n (i+1)

/-- Offset of the feature control note's descriptor, or -1 if there is none. -/
def findFeatureCtlDesc (f : List UInt8) (ehdr : Elf64Ehdr) : Except Exit Int :=
  phdrLoop f ehdr ehdr.ePhnum.toNat 0

inductive Request where
  | cherirevoke | nocherirevoke
  deriving DecidableEq, Repr

def Request.arg : Request → CString
  | .cherirevoke => cstr "+cherirevoke"
  | .nocherirevoke => cstr "+nocherirevoke"

def Request.bitToSet : Request → UInt32
  | .cherirevoke => NT_FREEBSD_FCTL_CHERI_REVOKE_ENABLE
  | .nocherirevoke => NT_FREEBSD_FCTL_CHERI_REVOKE_DISABLE

def Request.bitToClear : Request → UInt32
  | .cherirevoke => NT_FREEBSD_FCTL_CHERI_REVOKE_DISABLE
  | .nocherirevoke => NT_FREEBSD_FCTL_CHERI_REVOKE_ENABLE

def parseRequest (arg : CString) : Option Request :=
  if streq arg Request.cherirevoke.arg then some .cherirevoke
  else if streq arg Request.nocherirevoke.arg then some .nocherirevoke
  else none

def Request.apply (r : Request) (features : UInt32) : UInt32 :=
  (features &&& ~~~r.bitToClear) ||| r.bitToSet

def elfMagic : List UInt8 := 0x7f :: cstr "ELF"

/-- Everything `main` does between opening the file and writing to it: the
offset of the descriptor and the word found there. -/
def readFeatures (path : CString) (f : List UInt8) : Except Exit (Int × UInt32) := do
  let ehdr ← xpread Elf64Ehdr.sizeof Elf64Ehdr.ofBytes f 0
  failIf (ehdr.eIdent.take 4 ≠ elfMagic) (.errx (path ++ cstr " is not an ELF file"))
  failIf (ehdr.eIdent.getD EI_CLASS 0 ≠ ELFCLASS64 ∨ ehdr.eIdent.getD EI_DATA 0 ≠ ELFDATA2LSB)
    (.errx (path ++ cstr " is not a little-endian ELF64 file"))
  failIf (ehdr.ePhentsize.toNat ≠ Elf64Phdr.sizeof)
    (.errx (path ++ cstr " has unexpected program header size"))
  let descOff ← findFeatureCtlDesc f ehdr
  failIf (descOff < 0) (.errx (path ++ cstr " has no NT_FREEBSD_FEATURE_CTL note"))
  let features ← xpread 4 (readU32 · 0) f descOff
  pure (descOff,features)

/-- How the system answers the two calls that do not depend on the file. A
failed 4-byte `pwrite` writes nothing. -/
structure Sys where
  opens : Bool
  pwrites : Bool

structure Result where
  exit : Except Exit Unit
  file : List UInt8

def Result.status (r : Result) : Nat :=
  match r.exit with
  | .ok _ => 0
  | .error e => e.status

def main (sys : Sys) (argv : List CString) (f : List UInt8) : Result :=
  match argv with
  | [_,arg,path] =>
    match parseRequest arg with
    | none => ⟨.error usage,f⟩
    | some req =>
      if !sys.opens then ⟨.error (.err (cstr "open " ++ path)),f⟩
      else match readFeatures path f with
        | .error e => ⟨.error e,f⟩
        | .ok (descOff,features) =>
          if !sys.pwrites then ⟨.error (.err (cstr "pwrite " ++ path)),f⟩
          else ⟨.ok (),pwrite f descOff.toNat (leBytes 4 (req.apply features).toNat)⟩
  | _ => ⟨.error usage,f⟩

end CheriOsTest.Elf
