import CheriOsTest.LargePages
set_option autoImplicit false

/-! The test `vm_large_pages_basic` on Linux: one mapping of each size that the system lists,
with capabilities stored at its start, in its middle and on its last page. -/

namespace CheriOsTest.HugePages
open CheriOsTest.Capabilities CheriOsTest.CStrings CheriOsTest.Programs CheriOsTest.Revoke

def MAP_HUGE_SHIFT : Nat := 26

def ctzll (x : UInt64) : Nat := x.toBitVec.ctz.toNat

/-- What `mmap` is told of the size of the pages. -/
def hugeFlag (size : UInt64) : Nat := ctzll size*2^MAP_HUGE_SHIFT

/-- The directory with its files, and the memory. `protCap` says that the headers define
`PROT_CAP`; `perms` are load and store; `mmap` gets a length and the flag for the page size;
`tagKept` is the tag read back at an address. -/
structure HugeSys where
  protCap : Bool
  names : List CString
  files : CString → Option CString
  pageSize : Nat
  perms : UInt64
  mmap : UInt64 → Nat → Option Capability
  tagKept : Nat → Bool
  munmap : Capability → UInt64 → Bool

def checkStore (sys : HugeSys) (c : Capability) : Except Stop Unit :=
  if c.Reaches sizeofPtr ∧ c.address%sizeofPtr = 0 then
    verify (sys.tagKept c.address) (cstr "tag lost")
  else .error .fault

/-- The mapping, where `PROT_CAP` is there to ask for it. -/
def mapHuge (sys : HugeSys) (size : UInt64) : Except Stop Capability :=
  if sys.protCap then
    checkSyscall (cstr "mmap(NULL, ps[psind], PROT_READ | PROT_WRITE | PROT_CAP, " ++
      cstr "MAP_ANON | MAP_SHARED | MAP_HUGETLB | " ++
      cstr "(__builtin_ctzll(ps[psind]) << MAP_HUGE_SHIFT), -1, 0)") (sys.mmap size (hugeFlag size))
  else .error (.errx (cstr "PROT_CAP is not defined"))

def largePage (sys : HugeSys) (size : UInt64) (psind : Nat) : Except Stop Unit :=
  if 2^30 ≤ size.toNat then pure ()
  else do
    let addr ← mapHuge sys size
    verify addr.tag (cstr "mmap invalid capability for psind=" ++ fmtD psind)
    verify (addr.length = size.toNat) (cstr "mmap wrong capability length for psind=" ++
      fmtD psind ++ cstr " expected " ++ fmtLx size.toNat ++ cstr " found " ++ fmtLx addr.length)
    verify (addr.perms &&& sys.perms = sys.perms) (cstr "mmap missing permission expected " ++
      fmtLx sys.perms.toNat ++ cstr " found " ++ fmtLx addr.perms.toNat)
    checkStore sys addr
    checkStore sys (addr.offset (size.toNat/2))
    checkStore sys { addr with address := addr.address+size.toNat-sys.pageSize }
    checkSyscall (cstr "munmap(addr, ps[psind])") (if sys.munmap addr size then some () else none)

def vmLargePagesBasic (sys : HugeSys) : Except Stop Unit := do
  let s ← (getPagesizes sys.names).mapError fun e => Stop.errx e.1
  checkHugepagesPool sys.files s.sizes
  s.sizes.zipIdx.forM fun p => largePage sys p.1 p.2

/-- A mapping of `n` bytes with exact bounds. -/
structure MappingOf (sys : HugeSys) (n : Nat) (c : Capability) : Prop where
  tag : c.tag = true
  unsealed : c.otype = -1
  start : c.address = c.base
  aligned : 16 ∣ c.base
  length : c.length = n
  perms : c.perms &&& sys.perms = sys.perms

/-- Linux lists powers of two above the size of a page, and it maps a page of each size that
has one in its pool, when the flag gives its logarithm. -/
structure HugeSys.Documented (sys : HugeSys) : Prop where
  page : ∃ j, 4 ≤ j ∧ sys.pageSize = 2^j
  sizes : ∀ name ∈ sys.names, ∀ kb, scanHugepages name = some kb →
    ∃ k < 64, kb.toNat*1024 = 2^k ∧ sys.pageSize < 2^k
  mmap : ∀ name ∈ sys.names, ∀ kb k, scanHugepages name = some kb → kb.toNat*1024 = 2^k →
    Pooled sys.files name → ∃ c, sys.mmap (kb*1024) (k*2^MAP_HUGE_SHIFT) = some c ∧
      MappingOf sys (2^k) c
  tagKept : ∀ address, sys.tagKept address = true
  munmap : ∀ c size, sys.munmap c size = true

section Mapping

variable {sys : HugeSys} {c : Capability} {n k : Nat} {size : UInt64}

theorem ctzll_two_pow (h : size.toNat = 2^k) : ctzll size = k := by
  have hne : size.toBitVec ≠ 0#64 := by
    intro h0
    have hz : size.toNat = 0 := by simpa using congrArg BitVec.toNat h0
    have hpos := Nat.two_pow_pos k
    omega
  have hbit := BitVec.getLsbD_true_ctz_of_ne_zero hne
  rw [BitVec.getLsbD,UInt64.toNat_toBitVec,h,Nat.testBit_two_pow] at hbit
  exact (of_decide_eq_true hbit).symm

/-- The flag is an `int` for every size that is mapped. -/
theorem hugeFlag_lt (hne : size ≠ 0) (h : size.toNat < 2^30) : hugeFlag size < 2^31 := by
  have hbv : size.toBitVec ≠ 0#64 := fun h0 => hne (UInt64.toBitVec_inj.mp h0)
  have hle := BitVec.two_pow_ctz_le_toNat_of_ne_zero hbv
  have hlt : ctzll size < 30 := by
    by_contra hge
    have hpow : 2^30 ≤ 2^ctzll size := Nat.pow_le_pow_right (by decide) (Nat.not_lt.mp hge)
    have hle' : 2^ctzll size ≤ size.toNat := hle
    omega
  rw [hugeFlag,MAP_HUGE_SHIFT]
  omega

/-- An aligned store inside the mapping keeps its tag. -/
theorem MappingOf.store_ok (hc : MappingOf sys n c) (hdoc : sys.Documented) {a : Nat}
    (hlow : c.base ≤ a) (hhigh : a+16 ≤ c.base+n) (halign : a%16 = 0) :
    checkStore sys { c with address := a } = .ok () := by
  have hreach : ({ c with address := a } : Capability).Reaches sizeofPtr :=
    ⟨hc.tag,hc.unsealed,hlow,by rw [hc.length]; exact hhigh⟩
  rw [checkStore,if_pos ⟨hreach,halign⟩,verify,hdoc.tagKept,failIf,if_neg (by simp)]

/-- The three places of a mapping are aligned and inside it. -/
theorem MappingOf.stores_ok (hc : MappingOf sys (2^k) c) (hdoc : sys.Documented)
    (hpage : sys.pageSize < 2^k) :
    checkStore sys c = .ok () ∧ checkStore sys (c.offset (2^k/2)) = .ok () ∧
      checkStore sys { c with address := c.address+2^k-sys.pageSize } = .ok () := by
  obtain ⟨j,hj,hsize⟩ := hdoc.page
  rw [hsize] at hpage ⊢
  have hjk : j < k := (Nat.pow_lt_pow_iff_right (by decide)).mp hpage
  obtain ⟨b,hb⟩ := hc.aligned
  have hstart := hc.start
  -- all the sizes are multiples of 16, and the page is at most half of the mapping
  have hpage16 : (2 : Nat)^4 ∣ 2^j := Nat.pow_dvd_pow 2 hj
  have hhalf16 : (2 : Nat)^4 ∣ 2^(k-1) := Nat.pow_dvd_pow 2 (by omega)
  have hdouble : (2 : Nat)^k = 2*2^(k-1) := by
    rw [← Nat.pow_succ',Nat.succ_eq_add_one,Nat.sub_add_cancel (by omega)]
  have hle : (2 : Nat)^j ≤ 2^(k-1) := Nat.pow_le_pow_right (by decide) (by omega)
  have hpos := Nat.two_pow_pos j
  refine ⟨?_,?_,?_⟩
  · exact hc.store_ok hdoc (a := c.address) (by omega) (by omega) (by omega)
  · exact hc.store_ok hdoc (by omega) (by omega) (by omega)
  · exact hc.store_ok hdoc (by omega) (by omega) (by omega)

theorem largePage_iff (hdoc : sys.Documented) (hsize : size.toNat = 2^k)
    (hpage : sys.pageSize < 2^k) (hmap : sys.mmap size (k*2^MAP_HUGE_SHIFT) = some c)
    (hc : MappingOf sys (2^k) c) (psind : Nat) :
    largePage sys size psind = .ok () ↔ sys.protCap = true ∨ 2^30 ≤ size.toNat := by
  by_cases hlarge : 2^30 ≤ size.toNat
  · rw [largePage,if_pos hlarge]
    exact ⟨fun _ => .inr hlarge,fun _ => rfl⟩
  by_cases hcap : sys.protCap = true
  · obtain ⟨hstart,hmiddle,hend⟩ := hc.stores_ok hdoc hpage
    refine ⟨fun _ => .inl hcap,fun _ => ?_⟩
    rw [largePage,if_neg hlarge,mapHuge,if_pos hcap,hugeFlag,ctzll_two_pow hsize,hmap,hsize]
    simp only [checkSyscall,bind,Except.bind,hstart,hmiddle,hend]
    simp [verify,failIf,hc.tag,hc.length,hc.perms,hdoc.munmap]
  · rw [largePage,if_neg hlarge,mapHuge,if_neg hcap]
    exact ⟨fun h => (by cases h),fun h => absurd h (not_or.mpr ⟨hcap,hlarge⟩)⟩

end Mapping

/-- On Linux the test passes exactly where every size that is listed has a page in its pool,
and `PROT_CAP` is defined or no size below 2^30 is listed. The sizes from 2^30 on count for the
pools, though the loop maps none of them; what it does map takes its three stores, and the flag
that names the size of the pages fits an `int`. -/
theorem large_pages_basic_iff (sys : HugeSys) (hdoc : sys.Documented)
    (hcanonical : Canonical sys.names)
    (hfew : (sys.names.filterMap scanHugepages).length ≤ maxSize) :
    (vmLargePagesBasic sys = .ok () ↔
      (∀ name ∈ sys.names, (scanHugepages name).isSome → Pooled sys.files name) ∧
      (sys.protCap = true ∨
        ∀ name ∈ sys.names, ∀ kb, scanHugepages name = some kb → 2^30 ≤ kb.toNat*1024)) ∧
    ∀ size : UInt64, size ≠ 0 → size.toNat < 2^30 → hugeFlag size < 2^31 := by
  refine ⟨?_,fun size hne hsmall => hugeFlag_lt hne hsmall⟩
  obtain ⟨s,hs,hsizes⟩ := getPagesizes_sizes hfew
  have hbody : vmLargePagesBasic sys = .ok () ↔ checkHugepagesPool sys.files s.sizes = .ok () ∧
      ∀ p ∈ s.sizes.zipIdx, largePage sys p.1 p.2 = .ok () := by
    simp only [vmLargePagesBasic,hs,Except.mapError]
    exact (bind_unit_eq_ok _ _ _).trans (and_congr_right fun _ => forM_eq_ok_iff)
  have hpools : checkHugepagesPool sys.files s.sizes = .ok () ↔
      ∀ name ∈ sys.names, (scanHugepages name).isSome → Pooled sys.files name := by
    rw [checkHugepagesPool_iff,hsizes]
    exact pools_iff hcanonical
  rw [hbody,hpools,and_congr_right_iff]
  intro hpooled
  -- with the pools filled a size is left only where it cannot be asked for
  have hlisted : ∀ name ∈ sys.names, ∀ kb, scanHugepages name = some kb → ∀ psind,
      largePage sys (kb*1024) psind = .ok () ↔ sys.protCap = true ∨ 2^30 ≤ kb.toNat*1024 := by
    intro name hname kb hscan psind
    obtain ⟨k,hk,hpow,hpage⟩ := hdoc.sizes name hname kb hscan
    obtain ⟨c,hmap,hc⟩ := hdoc.mmap name hname kb k hscan hpow
      (hpooled name hname (by rw [hscan]; rfl))
    have hlt : 2^k < 2^64 := Nat.pow_lt_pow_right (by decide) hk
    have hsize : (kb*1024).toNat = 2^k := by
      simp only [UInt64.toNat_mul,UInt64.reduceToNat]
      omega
    rw [largePage_iff hdoc hsize hpage hmap hc,hsize,hpow]
  rw [hsizes]
  constructor
  · intro hall
    by_cases hcap : sys.protCap = true
    · exact .inl hcap
    refine .inr fun name hname kb hscan => ?_
    have hmem := List.mem_map_of_mem (f := fun n : UInt64 => n*1024)
      (List.mem_filterMap.mpr ⟨name,hname,hscan⟩)
    obtain ⟨psind,hp⟩ := List.mem_iff_getElem?.mp hmem
    have hlist := hall (kb*1024,psind) (List.mem_zipIdx_iff_getElem?.mpr hp)
    exact ((hlisted name hname kb hscan psind).mp hlist).resolve_left hcap
  · intro hask p hp
    obtain ⟨kb,hkb,hp1⟩ := List.mem_map.mp (List.fst_mem_of_mem_zipIdx hp)
    obtain ⟨name,hname,hscan⟩ := List.mem_filterMap.mp hkb
    rw [← hp1]
    exact (hlisted name hname kb hscan p.2).mpr (hask.imp id fun h => h name hname kb hscan)

/-- Two sizes with sixteen pages each. -/
def plainHugeSys : HugeSys where
  protCap := true
  names := plainNames
  files := fun _ => some (cstr "16\n")
  pageSize := 4096
  perms := 3
  mmap := fun size _ => some ⟨true,2^32,size.toNat,2^32,-1,3⟩
  tagKept := fun _ => true
  munmap := fun _ _ => true

theorem plainHugeSys_documented : plainHugeSys.Documented where
  page := ⟨12,by decide,rfl⟩
  sizes name hname kb hscan := by
    rcases (plainNames_sizes name hname kb hscan).2 with rfl | rfl
    · exact ⟨21,by decide,rfl,by decide⟩
    · exact ⟨30,by decide,rfl,by decide⟩
  mmap name hname kb k hscan hpow _ := by
    refine ⟨_,rfl,rfl,rfl,rfl,show 16 ∣ 2^32 by decide,?_,show (3 : UInt64) &&& 3 = 3 by decide⟩
    rw [← hpow]
    rcases (plainNames_sizes name hname kb hscan).2 with rfl | rfl <;> rfl
  tagKept _ := rfl
  munmap _ _ := rfl

theorem large_pages_basic_plain :
    (vmLargePagesBasic plainHugeSys = .ok () ↔
      (∀ name ∈ plainNames, (scanHugepages name).isSome → Pooled plainHugeSys.files name) ∧
      (plainHugeSys.protCap = true ∨
        ∀ name ∈ plainNames, ∀ kb, scanHugepages name = some kb → 2^30 ≤ kb.toNat*1024)) ∧
    ∀ size : UInt64, size ≠ 0 → size.toNat < 2^30 → hugeFlag size < 2^31 :=
  large_pages_basic_iff plainHugeSys plainHugeSys_documented plainNames_canonical plainNames_few

end CheriOsTest.HugePages
