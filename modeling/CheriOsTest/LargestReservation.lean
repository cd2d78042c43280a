import CheriOsTest.Quarantine
set_option autoImplicit false

/-! The test `revoke_largest_quarantined_reservation`: the entries of the memory map that it
looks for are those that contain its reservation, before the revocation and after it. -/

namespace CheriOsTest.Quarantine
open CheriOsTest.AddressGap CheriOsTest.CStrings CheriOsTest.Programs CheriOsTest.Revoke
open CheriOsTest.Spans

def resSize : UInt64 := 0x100000000

def containsRes (resAddr : UInt64) (e : VmEntry) : Prop :=
  e.start ≤ resAddr ∧ e.stop ≥ resAddr+resSize

instance (resAddr : UInt64) (e : VmEntry) : Decidable (containsRes resAddr e) :=
  inferInstanceAs (Decidable (_ ∧ _))

def findRes (resAddr : UInt64) (foundRes : Bool) (e : VmEntry) : Except Stop Bool :=
  if containsRes resAddr e then do
    verifyCond e.quarantined (cstr "kivp[i].kve_type == KVME_TYPE_QUARANTINED")
    pure true
  else pure foundRes

def checkFound (resAddr : UInt64) (kivp : List VmEntry) : Except Stop Unit := do
  let foundRes ← kivp.foldlM (findRes resAddr) false
  verify (foundRes = true) (cstr "reservation not found in vmmap")

def stillInMap : Stop := .errx (cstr "reservation still in memory map")

def checkGone (resAddr : UInt64) (kivp : List VmEntry) : Except Stop Unit :=
  kivp.forM fun e => failIf (containsRes resAddr e) stillInMap

def revokeLargestQuarantinedReservation (sys : VmSys) : Except Stop Unit := do
  checkSyscall (cstr "cheri_revoke_get_shadow( CHERI_REVOKE_SHADOW_INFO_STRUCT, NULL, " ++
    cstr "__DEQUALIFY(void **, &cri))") (if sys.getShadowInfo then some () else none)
  let res ← checkSyscall (cstr "mmap(NULL, res_size, PROT_READ, MAP_ANON, -1, 0)")
    (sys.mmap 0 resSize)
  checkSyscall (cstr "munmap(res, res_size)") (if sys.munmap res resSize then some () else none)
  verifyCond sys.openSysctl (cstr "psp != NULL")
  verifyCond sys.getprocs.isSome (cstr "kipp != NULL")
  verifyCond (sys.getprocs = some 1) (cstr "pcnt == 1")
  verifyCond sys.vmmapBefore.isSome (cstr "kivp != NULL")
  checkFound res (sys.vmmapBefore.getD [])
  checkSyscall (cstr "cheri_revoke( CHERI_REVOKE_LAST_PASS | CHERI_REVOKE_IGNORE_START, 0, NULL)")
    (if sys.cheriRevoke then some () else none)
  verifyCond sys.vmmapAfter.isSome (cstr "kivp != NULL")
  checkGone res (sys.vmmapAfter.getD [])

/-- Every call succeeds, with these results. -/
structure Answers (sys : VmSys) (res : UInt64) (before after : List VmEntry) : Prop where
  shadow : sys.getShadowInfo = true
  mapped : sys.mmap 0 resSize = some res
  unmapped : sys.munmap res resSize = true
  sysctl : sys.openSysctl = true
  proc : sys.getprocs = some 1
  before : sys.vmmapBefore = some before
  revoked : sys.cheriRevoke = true
  after : sys.vmmapAfter = some after

/-- Some entry contains the reservation, and each one that does is quarantined. -/
def FoundQuarantined (res : UInt64) (kivp : List VmEntry) : Prop :=
  (∃ e ∈ kivp, containsRes res e) ∧ ∀ e ∈ kivp, containsRes res e → e.quarantined = true

def MeetsRes (res : UInt64) (e : VmEntry) : Prop :=
  ∃ x, e.Covers x ∧ res.toNat ≤ x ∧ x < res.toNat+resSize.toNat

/-- The entry begins or ends in the reservation, so that it leaves a part of it out. -/
def CutsRes (res : UInt64) (e : VmEntry) : Prop :=
  (res.toNat < e.start.toNat ∧ e.start.toNat < res.toNat+resSize.toNat) ∨
    (res.toNat < e.stop.toNat ∧ e.stop.toNat < res.toNat+resSize.toNat)

section Entries

variable {res : UInt64} {e : VmEntry} {kivp before after : List VmEntry} {sys : VmSys}

theorem resSize_toNat : resSize.toNat = 2^32 := by rfl

theorem containsRes_iff (h : res.toNat+resSize.toNat < 2^64) : containsRes res e ↔
    e.start.toNat ≤ res.toNat ∧ res.toNat+resSize.toNat ≤ e.stop.toNat := by
  rw [containsRes,ge_iff_le,UInt64.le_iff_toNat_le,UInt64.le_iff_toNat_le,UInt64.toNat_add,
    Nat.mod_eq_of_lt h]

theorem meetsRes_iff (h : e.start < e.stop) : MeetsRes res e ↔
    e.start.toNat < res.toNat+resSize.toNat ∧ res.toNat < e.stop.toNat := by
  have hlt := UInt64.lt_iff_toNat_lt.mp h
  have hspan : MeetsRes res e ↔ (entrySpan e h).Meets
      ⟨(res.toNat,res.toNat+(resSize.toNat-1)),Nat.le_add_right _ _⟩ := by
    refine exists_congr fun x => ?_
    rw [mem_entrySpan h,NonemptyInterval.mem_mk,resSize_toNat]
    exact and_congr_right fun _ => by omega
  rw [hspan,meets_iff,entrySpan,resSize_toNat]
  dsimp only
  omega

/-- An overlap that is cut is the only one that does not contain the reservation. -/
theorem not_containsRes_iff (hres : res.toNat+resSize.toNat < 2^64) (h : e.start < e.stop) :
    ¬ containsRes res e ↔ (MeetsRes res e → CutsRes res e) := by
  have hlt := UInt64.lt_iff_toNat_lt.mp h
  rw [containsRes_iff hres,meetsRes_iff h,CutsRes,resSize_toNat]
  omega

theorem findRes_eq_ok {found b : Bool} : findRes res found e = .ok b ↔
    (containsRes res e → e.quarantined = true) ∧ (found || decide (containsRes res e)) = b := by
  by_cases h : containsRes res e
  · rw [findRes,if_pos h,verifyCond,verify,failIf_bind_eq_ok]
    simp [h,pure,Except.pure]
  · simp [findRes,h,pure,Except.pure]

theorem findRes_run {found b : Bool} : kivp.foldlM (findRes res) found = .ok b ↔
    (∀ e ∈ kivp, containsRes res e → e.quarantined = true) ∧
      (found || kivp.any fun e => containsRes res e) = b := by
  induction kivp generalizing found with
  | nil => simp [pure,Except.pure]
  | cons e kivp ih =>
    simp only [List.foldlM_cons,bind_eq_ok,findRes_eq_ok,ih,List.forall_mem_cons,List.any_cons]
    constructor
    · rintro ⟨a,⟨he,rfl⟩,hall,rfl⟩
      exact ⟨⟨he,hall⟩,by rw [Bool.or_assoc]⟩
    · rintro ⟨⟨he,hall⟩,rfl⟩
      exact ⟨_,⟨he,rfl⟩,hall,by rw [Bool.or_assoc]⟩

theorem checkFound_iff : checkFound res kivp = .ok () ↔ FoundQuarantined res kivp := by
  simp only [checkFound,bind_eq_ok,findRes_run,verify,failIf_eq_ok,not_not,FoundQuarantined]
  constructor
  · rintro ⟨_,⟨hall,rfl⟩,hfound⟩
    exact ⟨by simpa using hfound,hall⟩
  · rintro ⟨hex,hall⟩
    exact ⟨_,⟨hall,rfl⟩,by simpa using hex⟩

theorem checkGone_iff : checkGone res kivp = .ok () ↔ ∀ e ∈ kivp, ¬ containsRes res e := by
  rw [checkGone,forM_eq_ok_iff]
  exact forall₂_congr fun e _ => failIf_eq_ok _ _ _

theorem checkSyscall_eq_ok {α : Type} {text : CString} {r : Option α} {a : α} :
    checkSyscall text r = .ok a ↔ r = some a := by
  cases r <;> simp [checkSyscall]

theorem ite_some {c : Prop} [Decidable c] {u : Unit} :
    (if c then some () else none) = some u ↔ c := by
  split <;> simp [*]

theorem passes_iff : revokeLargestQuarantinedReservation sys = .ok () ↔
    ∃ res before after, Answers sys res before after ∧ FoundQuarantined res before ∧
      ∀ e ∈ after, ¬ containsRes res e := by
  rw [revokeLargestQuarantinedReservation,bind_unit_eq_ok,bind_eq_ok]
  simp only [bind_unit_eq_ok,checkSyscall_eq_ok,ite_some,verifyCond,verify,failIf_eq_ok,not_not,
    checkFound_iff,checkGone_iff]
  constructor
  · rintro ⟨hshadow,res,hmap,hunmap,hsysctl,-,hproc,hbefore,hfound,hrevoke,hafter,hgone⟩
    obtain ⟨before,hb⟩ := Option.isSome_iff_exists.mp hbefore
    obtain ⟨after,ha⟩ := Option.isSome_iff_exists.mp hafter
    rw [hb] at hfound
    rw [ha] at hgone
    exact ⟨res,before,after,⟨hshadow,hmap,hunmap,hsysctl,hproc,hb,hrevoke,ha⟩,hfound,hgone⟩
  · rintro ⟨res,before,after,h,hfound,hgone⟩
    simp [h.shadow,h.mapped,h.unmapped,h.sysctl,h.proc,h.before,h.revoked,h.after,hfound]
    exact hgone

end Entries

/-- The reservation in two entries, still in quarantine. -/
def pieces (res cut : UInt64) : List VmEntry := [⟨⟨res,cut⟩,true⟩,⟨⟨cut,res+resSize⟩,true⟩]

theorem pieces_cover {res cut : UInt64} (hfits : res.toNat+resSize.toNat < 2^64) {x : Nat}
    (hx : res.toNat ≤ x) (hx' : x < res.toNat+resSize.toNat) :
    ∃ e ∈ pieces res cut, e.Covers x := by
  by_cases h : x < cut.toNat
  · exact ⟨⟨⟨res,cut⟩,true⟩,by simp [pieces],hx,h⟩
  · refine ⟨⟨⟨cut,res+resSize⟩,true⟩,by simp [pieces],Nat.le_of_not_lt h,?_⟩
    rw [UInt64.toNat_add,Nat.mod_eq_of_lt hfits]
    exact hx'

theorem pieces_not_contain {res cut : UInt64} (hfits : res.toNat+resSize.toNat < 2^64)
    (hcut : res < cut) (hcut' : cut.toNat < res.toNat+resSize.toNat) :
    ∀ e ∈ pieces res cut, ¬ containsRes res e := by
  have hlt := UInt64.lt_iff_toNat_lt.mp hcut
  simp only [pieces,List.forall_mem_cons,containsRes_iff hfits]
  exact ⟨by omega,by omega,by simp⟩

/-- The test passes exactly when the reservation was found in quarantine and each entry that
still meets it begins or ends in it; a revocation that only cuts it in two is not seen. -/
theorem largest_reservation_iff (sys : VmSys)
    (hfits : ∀ res, sys.mmap 0 resSize = some res → res.toNat+resSize.toNat < 2^64)
    (hmap : ∀ kivp, sys.vmmapAfter = some kivp → ∀ e ∈ kivp, e.start < e.stop) :
    (revokeLargestQuarantinedReservation sys = .ok () ↔
      ∃ res before after, Answers sys res before after ∧ FoundQuarantined res before ∧
        ∀ e ∈ after, MeetsRes res e → CutsRes res e) ∧
    ∀ res before cut, Answers sys res before (pieces res cut) → FoundQuarantined res before →
      res < cut → cut.toNat < res.toNat+resSize.toNat →
      revokeLargestQuarantinedReservation sys = .ok () ∧
        ∀ x, res.toNat ≤ x → x < res.toNat+resSize.toNat → ∃ e ∈ pieces res cut, e.Covers x := by
  refine ⟨?_,fun res before cut h hfound hcut hcut' => ?_⟩
  · rw [passes_iff]
    refine exists_congr fun res => exists_congr fun before => exists_congr fun after =>
      and_congr_right fun h => and_congr_right fun _ => forall₂_congr fun e he => ?_
    exact not_containsRes_iff (hfits res h.mapped) (hmap after h.after e he)
  · have hfit := hfits res h.mapped
    exact ⟨passes_iff.mpr ⟨res,before,_,h,hfound,pieces_not_contain hfit hcut hcut'⟩,
      fun x => pieces_cover hfit⟩

/-- A kernel whose revocation cuts the reservation in two. -/
def cuttingSys : VmSys where
  pageSize := 0x1000
  cheri := uncompressed
  maps := []
  getShadowInfo := true
  mmap _ _ := some 0x40000000
  munmap _ _ := true
  openSysctl := true
  getprocs := some 1
  vmmapBefore := some [⟨⟨0x40000000,0x140000000⟩,true⟩]
  cheriRevoke := true
  vmmapAfter := some (pieces 0x40000000 0x80000000)

theorem largest_reservation_cuttingSys : revokeLargestQuarantinedReservation cuttingSys = .ok () ∧
    ∀ x, (0x40000000 : UInt64).toNat ≤ x → x < (0x40000000 : UInt64).toNat+resSize.toNat →
      ∃ e ∈ pieces 0x40000000 0x80000000, e.Covers x := by
  refine (largest_reservation_iff cuttingSys ?_ ?_).2 0x40000000 _ 0x80000000
    ⟨rfl,rfl,rfl,rfl,rfl,rfl,rfl,rfl⟩ ?_ (by decide) (by decide)
  · rintro res h
    cases h
    decide
  · rintro kivp h
    cases h
    decide
  · exact ⟨⟨_,List.mem_singleton_self _,by decide⟩,by decide⟩

end CheriOsTest.Quarantine
