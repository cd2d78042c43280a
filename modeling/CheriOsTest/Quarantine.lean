import CheriOsTest.GapSearch
import CheriOsTest.RevokeLib
import CheriOsTest.Spans
set_option autoImplicit false

/-! The test `revoke_merge_quarantined`: reservations that have been unmapped stay in the
memory map until they are revoked. Its last loop looks for entries that overlap its working
space by their first and their last address. -/

namespace CheriOsTest.Quarantine
open CheriOsTest.AddressGap CheriOsTest.CStrings CheriOsTest.Programs CheriOsTest.Revoke
open CheriOsTest.Spans

/-- `kve_start`, `kve_end`, and whether `kve_type` is `KVME_TYPE_QUARANTINED`. -/
structure VmEntry extends Mapping where
  quarantined : Bool

/-- What the system answers; `maps` is the memory map that the search for a gap reads. -/
structure VmSys where
  pageSize : UInt64
  cheri : Cheri
  maps : List Mapping
  getShadowInfo : Bool
  mmap : UInt64 → UInt64 → Option UInt64
  munmap : UInt64 → UInt64 → Bool
  openSysctl : Bool
  getprocs : Option Nat
  vmmapBefore : Option (List VmEntry)
  cheriRevoke : Bool
  vmmapAfter : Option (List VmEntry)

/-- `CHERIOSTEST_VERIFY`. -/
def verifyCond (c : Prop) [Decidable c] (cond : CString) : Except Stop Unit :=
  verify c (cstr "'" ++ cond ++ cstr "' is FALSE!")

def bigResSize : UInt64 := 0x100000000

def reservations (pageSize : UInt64) : List (UInt64 × UInt64) :=
  [(pageSize,pageSize),(bigResSize,bigResSize),(pageSize,3*bigResSize)]

def reserve (sys : VmSys) (workingSpace : UInt64) (r : UInt64 × UInt64) : Except Stop UInt64 := do
  let res ← checkSyscall (cstr "mmap( (void *)(uintptr_t)(working_space + res_offsets[r]), " ++
    cstr "res_sizes[r], PROT_READ, MAP_ANON, -1, 0)") (sys.mmap (workingSpace+r.2) r.1)
  checkSyscall (cstr "munmap(res, res_sizes[r])") (if sys.munmap res r.1 then some () else none)
  pure res

def markFound (e : VmEntry) (resAddrs : List UInt64) (found : List Bool) (r : Nat) :
    Except Stop (List Bool) :=
  if some e.start = resAddrs[r]? then do
    verifyCond e.quarantined (cstr "kivp[i].kve_type == KVME_TYPE_QUARANTINED")
    pure (found.set r true)
  else pure found

def checkQuarantined (resAddrs : List UInt64) (kivp : List VmEntry) : Except Stop Unit := do
  let found ← kivp.foldlM (fun found e =>
    (List.range resAddrs.length).foldlM (markFound e resAddrs) found)
    (resAddrs.map fun _ => false)
  found.forM (fun f => verify (f = true) (cstr "reservation not found in vmmap"))

def stillMapped : Stop := .errx (cstr "reservation(s) still in memory map")

def endInside (workingSpace : UInt64) (e : VmEntry) : Prop :=
  (e.start ≥ workingSpace ∧ e.start < workingSpace+4*bigResSize) ∨
    (e.stop-1 ≥ workingSpace ∧ e.stop-1 < workingSpace+4*bigResSize)

instance (workingSpace : UInt64) (e : VmEntry) : Decidable (endInside workingSpace e) :=
  inferInstanceAs (Decidable (_ ∨ _))

def checkUnmapped (workingSpace : UInt64) (kivp : List VmEntry) : Except Stop Unit :=
  kivp.forM fun e => failIf (endInside workingSpace e) stillMapped

def revokeMergeQuarantined (sys : VmSys) : Except Stop Unit := do
  checkSyscall (cstr "cheri_revoke_get_shadow( CHERI_REVOKE_SHADOW_INFO_STRUCT, NULL, " ++
    cstr "__DEQUALIFY(void **, &cri))") (if sys.getShadowInfo then some () else none)
  let workingSpace ←
    (findAddressSpaceGapFreeBSD sys.cheri sys.maps (bigResSize*4) 0).mapError .errx
  let resAddrs ← (reservations sys.pageSize).mapM (reserve sys workingSpace)
  verifyCond sys.openSysctl (cstr "psp != NULL")
  verifyCond sys.getprocs.isSome (cstr "kipp != NULL")
  verifyCond (sys.getprocs = some 1) (cstr "pcnt == 1")
  verifyCond sys.vmmapBefore.isSome (cstr "kivp != NULL")
  checkQuarantined resAddrs (sys.vmmapBefore.getD [])
  checkSyscall (cstr "cheri_revoke( CHERI_REVOKE_LAST_PASS | CHERI_REVOKE_IGNORE_START, 0, NULL)")
    (if sys.cheriRevoke then some () else none)
  verifyCond sys.vmmapAfter.isSome (cstr "kivp != NULL")
  checkUnmapped workingSpace (sys.vmmapAfter.getD [])

def Overlaps (workingSpace : UInt64) (e : VmEntry) : Prop :=
  ∃ x, e.Covers x ∧ workingSpace.toNat ≤ x ∧ x < workingSpace.toNat+4*bigResSize.toNat

def Encloses (workingSpace : UInt64) (e : VmEntry) : Prop :=
  e.start.toNat < workingSpace.toNat ∧ workingSpace.toNat+4*bigResSize.toNat < e.stop.toNat

def EndsIn (workingSpace : UInt64) (e : VmEntry) : Prop :=
  (workingSpace.toNat ≤ e.start.toNat ∧ e.start.toNat < workingSpace.toNat+4*bigResSize.toNat) ∨
    (workingSpace.toNat < e.stop.toNat ∧ e.stop.toNat ≤ workingSpace.toNat+4*bigResSize.toNat)

/-- A working space, and the entries that a memory map has, do not wrap. -/
structure Placed (workingSpace : UInt64) (kivp : List VmEntry) : Prop where
  fits : workingSpace.toNat+4*bigResSize.toNat < 2^64
  start_lt : ∀ e ∈ kivp, e.start < e.stop

section Entries

variable {workingSpace : UInt64} {e : VmEntry}

def spaceSpan (workingSpace : UInt64) : Span Nat :=
  ⟨(workingSpace.toNat,workingSpace.toNat+(4*bigResSize.toNat-1)),Nat.le_add_right _ _⟩

def entrySpan (e : VmEntry) (h : e.start < e.stop) : Span Nat :=
  ⟨(e.start.toNat,e.stop.toNat-1),Nat.le_sub_one_of_lt (UInt64.lt_iff_toNat_lt.mp h)⟩

theorem bigResSize_toNat : bigResSize.toNat = 2^32 := by rfl

theorem mem_spaceSpan {x : Nat} : x ∈ spaceSpan workingSpace ↔
    workingSpace.toNat ≤ x ∧ x < workingSpace.toNat+4*bigResSize.toNat := by
  rw [spaceSpan,NonemptyInterval.mem_mk,bigResSize_toNat]
  omega

theorem mem_entrySpan (h : e.start < e.stop) {x : Nat} : x ∈ entrySpan e h ↔ e.Covers x := by
  have hlt := UInt64.lt_iff_toNat_lt.mp h
  rw [entrySpan,NonemptyInterval.mem_mk,Mapping.Covers]
  omega

theorem overlaps_iff_meets (h : e.start < e.stop) :
    Overlaps workingSpace e ↔ (entrySpan e h).Meets (spaceSpan workingSpace) := by
  refine exists_congr fun x => ?_
  rw [mem_entrySpan h,mem_spaceSpan]

theorem endsIn_iff (h : e.start < e.stop) : EndsIn workingSpace e ↔
    (entrySpan e h).fst ∈ spaceSpan workingSpace ∨ (entrySpan e h).snd ∈ spaceSpan workingSpace := by
  have hlt := UInt64.lt_iff_toNat_lt.mp h
  rw [mem_spaceSpan,mem_spaceSpan,EndsIn,entrySpan]
  dsimp only
  omega

theorem encloses_iff (h : e.start < e.stop) :
    Encloses workingSpace e ↔ (entrySpan e h).Encloses (spaceSpan workingSpace) := by
  have hlt := UInt64.lt_iff_toNat_lt.mp h
  have hbig := bigResSize_toNat
  rw [Encloses,Span.Encloses,entrySpan,spaceSpan]
  dsimp only
  omega

theorem overlaps_iff (h : e.start < e.stop) :
    Overlaps workingSpace e ↔ EndsIn workingSpace e ∨ Encloses workingSpace e := by
  rw [overlaps_iff_meets h,meets_iff_ends,← endsIn_iff h,← encloses_iff h]

/-- As long as the working space does not wrap, the test of an entry is about addresses. -/
theorem endInside_iff (hw : workingSpace.toNat+4*bigResSize.toNat < 2^64) (h : e.start < e.stop) :
    endInside workingSpace e ↔ EndsIn workingSpace e := by
  have hlt := UInt64.lt_iff_toNat_lt.mp h
  have hstop : (e.stop-1).toNat = e.stop.toNat-1 :=
    UInt64.toNat_sub_of_le _ _ (UInt64.le_iff_toNat_le.mpr (show 1 ≤ e.stop.toNat by omega))
  have hsum : (workingSpace+4*bigResSize).toNat = workingSpace.toNat+4*bigResSize.toNat := by
    rw [bigResSize_toNat] at hw ⊢
    rw [UInt64.toNat_add]
    exact Nat.mod_eq_of_lt hw
  rw [endInside,EndsIn,ge_iff_le,ge_iff_le,UInt64.le_iff_toNat_le,UInt64.lt_iff_toNat_lt,
    UInt64.le_iff_toNat_le,UInt64.lt_iff_toNat_lt,hstop,hsum]
  omega

end Entries

theorem checkUnmapped_eq_error {workingSpace : UInt64} {kivp : List VmEntry}
    (h : Placed workingSpace kivp) :
    checkUnmapped workingSpace kivp = .error stillMapped ↔ ∃ e ∈ kivp, EndsIn workingSpace e := by
  rw [checkUnmapped,forM_failIf_eq_error]
  exact exists_congr fun e => and_congr_right fun he => endInside_iff h.fits (h.start_lt e he)

/-- The loop reports exactly the overlaps unless an entry encloses the working space and no
entry has an end in it. -/
theorem overlap_reported_iff (workingSpace : UInt64) (kivp : List VmEntry)
    (h : Placed workingSpace kivp) :
    (checkUnmapped workingSpace kivp = .error stillMapped ↔
      ∃ e ∈ kivp, Overlaps workingSpace e) ↔
    ((∃ e ∈ kivp, Encloses workingSpace e) → ∃ e ∈ kivp, EndsIn workingSpace e) := by
  have hover : (∃ e ∈ kivp, Overlaps workingSpace e) ↔
      (∃ e ∈ kivp, EndsIn workingSpace e) ∨ ∃ e ∈ kivp, Encloses workingSpace e := by
    rw [← exists_or]
    refine exists_congr fun e => ?_
    rw [← and_or_left]
    exact and_congr_right fun he => overlaps_iff (h.start_lt e he)
  rw [checkUnmapped_eq_error h,hover]
  exact ⟨fun hiff he => hiff.mpr (.inr he),fun himp => ⟨.inl,fun hor => hor.elim id himp⟩⟩

/-- Whatever is still mapped over the working space when the test passes encloses it. -/
theorem passed_encloses {sys : VmSys} (h : revokeMergeQuarantined sys = .ok ()) :
    ∃ workingSpace kivp,
      findAddressSpaceGapFreeBSD sys.cheri sys.maps (bigResSize*4) 0 = .ok workingSpace ∧
      sys.vmmapAfter = some kivp ∧ (Placed workingSpace kivp →
        ∀ e ∈ kivp, Overlaps workingSpace e → Encloses workingSpace e) := by
  simp only [revokeMergeQuarantined,bind_eq_ok] at h
  obtain ⟨_,-,workingSpace,hgap,_,-,_,-,_,-,_,-,_,-,_,-,_,-,_,hafter,hunmapped⟩ := h
  have hgap' : findAddressSpaceGapFreeBSD sys.cheri sys.maps (bigResSize*4) 0 =
      .ok workingSpace := by
    cases hf : findAddressSpaceGapFreeBSD sys.cheri sys.maps (bigResSize*4) 0 with
    | error e => rw [hf] at hgap; cases hgap
    | ok a => rw [hf] at hgap; cases hgap; rfl
  obtain ⟨kivp,hkivp⟩ := Option.isSome_iff_exists.mp (not_not.mp ((failIf_eq_ok _ _ _).mp hafter))
  refine ⟨workingSpace,kivp,hgap',hkivp,fun hplaced e he hover => ?_⟩
  rw [hkivp,Option.getD_some,checkUnmapped,forM_eq_ok_iff] at hunmapped
  have hno := (failIf_eq_ok _ _ _).mp (hunmapped e he)
  rw [endInside_iff hplaced.fits (hplaced.start_lt e he)] at hno
  exact ((overlaps_iff (hplaced.start_lt e he)).mp hover).resolve_left hno

def mergedEntry : VmEntry := ⟨⟨0x10000,0x400012000⟩,true⟩

theorem mergedEntry_placed {workingSpace : UInt64}
    (h : workingSpace.toNat+4*bigResSize.toNat < 2^64) : Placed workingSpace [mergedEntry] where
  fits := h
  start_lt e he := by
    rw [List.mem_singleton.mp he]
    decide

theorem overlap_reported_merged : checkUnmapped 0x10000 [mergedEntry] = .error stillMapped ↔
    ∃ e ∈ [mergedEntry], Overlaps 0x10000 e :=
  (overlap_reported_iff 0x10000 [mergedEntry] (mergedEntry_placed (by decide))).mpr
    (fun _ => ⟨mergedEntry,List.mem_singleton_self _,.inl (by decide)⟩)

theorem overlap_missed : Placed 0x11000 [mergedEntry] ∧
    checkUnmapped 0x11000 [mergedEntry] = .ok () ∧ ∃ e ∈ [mergedEntry], Overlaps 0x11000 e :=
  ⟨mergedEntry_placed (by decide),rfl,mergedEntry,List.mem_singleton_self _,0x11000,
    ⟨by decide,by decide⟩,by decide,by decide⟩

end CheriOsTest.Quarantine
