import CheriOsTest.FloatingBounds
import CheriOsTest.GapSearch
import CheriOsTest.RevokeLib
set_option autoImplicit false

/-! The shortest length that stays unrepresentable when it is rounded to pages: a loop over
the powers of two finds it, and two tests ask `mmap` for it. -/

namespace CheriOsTest.Unrepresentable
open CheriOsTest.AddressGap CheriOsTest.Align CheriOsTest.CStrings CheriOsTest.FloatingBounds
open CheriOsTest.Revoke

/-- `CHERITEST_PAGE_SIZE`, for a `CHERITEST_PAGE_SHIFT` of `p`. -/
def pageSize (p : Nat) : UInt64 := .ofNat (2^p)

def roundPage (p : Nat) (len : UInt64) : UInt64 := alignUp len (pageSize p)

/-- `(1 << n) + 1`, computed in `int` and converted. -/
def probe (n : Nat) : UInt64 := .ofNat (2^n+1)

/-- The loop with `shift` still to be tried. An `int` has no bit 31 to shift into. -/
def lengthLoop (c : Cheri) (p shift : Nat) : Option UInt64 :=
  if p+shift < 31 then
    let len := probe (p+shift)
    if roundPage p len = c.representableLength (roundPage p len) then lengthLoop c p (shift+1)
    else some len
  else none
termination_by 31-(p+shift)

def getUnrepresentableLength (c : Cheri) (p : Nat) : Option UInt64 := lengthLoop c p 0

/-- What a test sees of the capability that `mmap` returns; `text` is its `%#p`. -/
structure MapCap where
  tag : Bool
  length : UInt64
  text : CString

/-- `vm_reservation_access_fault`, up to the read at the offset that it returns. -/
def vmReservationAccessFault (c : Cheri) (p : Nat) (mmap : UInt64 → Option MapCap) :
    Option (Except Stop UInt64) :=
  (getUnrepresentableLength c p).map fun len => do
    let expectedLen := c.representableLength len
    verify (expectedLen > roundPage p len) (cstr "test precondition failed: padding for length (" ++
      fmtLx len.toNat ++ cstr ") must exceed one page, found " ++ fmtLx expectedLen.toNat)
    let map ← checkSyscall (cstr "mmap(NULL, len, PROT_READ | PROT_WRITE, MAP_ANON, -1, 0)") (mmap len)
    verify map.tag (cstr "mmap() failed to return a pointer when given unrepresentable length (" ++
      fmtD len.toNat ++ cstr ")")
    verify (map.length = expectedLen) (cstr "mmap() returned a pointer with an unrepresentable " ++
      cstr "length (" ++ fmtD map.length.toNat ++ cstr " vs " ++ fmtD expectedLen.toNat ++
      cstr "): " ++ map.text)
    pure (expectedLen-4)

def cheriabiUnrepresentableLength (c : Cheri) (p : Nat) : Option UInt64 := lengthLoop c p 0

def cheriabiMmapUnrepresentable (c : Cheri) (p : Nat) (mmap : UInt64 → Option MapCap) :
    Option (Except Stop Unit) :=
  (cheriabiUnrepresentableLength c p).map fun len => do
    let expectedLen := c.representableLength len
    match mmap len with
    | none => .error (.errx (cstr "mmap() failed to return a pointer when given an " ++
        cstr "unrepresentable length (" ++ fmtD len.toNat ++ cstr ")"))
    | some cap => verify (cap.length = expectedLen) (cstr "mmap() returned a pointer with an " ++
        cstr "unexpected length (" ++ fmtD cap.length.toNat ++ cstr " vs " ++
        fmtD expectedLen.toNat ++ cstr ") when given an unrepresentable length (" ++
        fmtD len.toNat ++ cstr "): " ++ cap.text)

/-- The format rounds a length from a page on up to a multiple of its unit. -/
structure RoundsToUnit (c : Cheri) (p m : Nat) : Prop where
  zero : c.representableLength 0 = 0
  next : ∀ len, 2^p ≤ len.toNat → len.toNat ≤ 2^63 →
    (c.representableLength len).toNat = roundUp (unit m len.toNat) len.toNat

section Search

variable {c : Cheri} {p m : Nat} {len : UInt64}

theorem roundPage_toNat (hp : p < 64) (hlen : len.toNat ≤ 2^63) :
    (roundPage p len).toNat = roundUp (2^p) len.toNat := by
  refine alignUp_toNat ?_ hp hlen
  exact UInt64.toNat_ofNat_of_lt' (Nat.pow_lt_pow_right (by decide) hp)

theorem probe_toNat {n : Nat} (hn : n < 31) : (probe n).toNat = 2^n+1 := by
  have hle : 2^n ≤ 2^30 := Nat.pow_le_pow_right (by decide) (by omega)
  exact UInt64.toNat_ofNat_of_lt' (show 2^n+1 < 2^64 by omega)

theorem roundUp_eq_self {a n : Nat} (ha : 0 < a) : roundUp a n = n ↔ a ∣ n := by
  constructor
  · exact fun h => h ▸ dvd_roundUp a n
  · exact fun h => Nat.le_antisymm (roundUp_le h (Nat.le_refl n)) (le_roundUp ha n)

theorem RoundsToUnit.eq_self_iff (hc : RoundsToUnit c p m) (hle : 2^p ≤ len.toNat)
    (hlen : len.toNat ≤ 2^63) : len = c.representableLength len ↔ unit m len.toNat ∣ len.toNat := by
  rw [← roundUp_eq_self (unit_pos m _),← hc.next len hle hlen,← UInt64.toNat_inj,eq_comm]

theorem RoundsToUnit.representable (hc : RoundsToUnit c p m) (hp : p+m+1 < 31)
    (hlen : len.toNat ≤ 2^(p+m+1)) :
    roundPage p len = c.representableLength (roundPage p len) := by
  have hpow : 2^(p+m+1) ≤ 2^30 := Nat.pow_le_pow_right (by decide) (by omega)
  have hround := roundPage_toNat (show p < 64 by omega) (show len.toNat ≤ 2^63 by omega)
  have htop : roundUp (2^p) len.toNat ≤ 2^(p+m+1) :=
    roundUp_le (Nat.pow_dvd_pow 2 (by omega)) hlen
  rcases Nat.eq_zero_or_pos len.toNat with hzero | hpos
  · have hnone : roundPage p len = 0 := by
      rw [← UInt64.toNat_inj,hround,hzero]
      exact Nat.le_zero.mp (roundUp_le (Nat.dvd_zero _) (Nat.le_refl 0))
    rw [hnone,hc.zero]
  · have hpage : 2^p ≤ roundUp (2^p) len.toNat :=
      Nat.le_of_dvd (Nat.lt_of_lt_of_le hpos (le_roundUp (Nat.two_pow_pos p) _)) (dvd_roundUp _ _)
    rw [hc.eq_self_iff (by omega) (by omega),hround]
    exact unit_dvd_multiple (dvd_roundUp _ _) htop

theorem probe_roundPage (hp : p+m+1 < 31) :
    (roundPage p (probe (p+m+1))).toNat = 2^(p+m+1)+2^p := by
  have hpow : 2^(p+m+1) ≤ 2^30 := Nat.pow_le_pow_right (by decide) (by omega)
  have hpos := Nat.two_pow_pos p
  have hprobe := probe_toNat hp
  rw [roundPage_toNat (by omega) (by omega),hprobe]
  have hd : 2^p ∣ 2^(p+m+1) := Nat.pow_dvd_pow 2 (by omega)
  have hle : roundUp (2^p) (2^(p+m+1)+1) ≤ 2^(p+m+1)+2^p :=
    roundUp_le (Nat.dvd_add hd (Nat.dvd_refl _)) (by omega)
  have hge : 2^(p+m+1)+1 ≤ roundUp (2^p) (2^(p+m+1)+1) := le_roundUp hpos _
  have hdiff : 2^p ∣ roundUp (2^p) (2^(p+m+1)+1)-2^(p+m+1) := Nat.dvd_sub (dvd_roundUp _ _) hd
  have hstep := Nat.le_of_dvd (by omega) hdiff
  omega

theorem RoundsToUnit.unrepresentable (hc : RoundsToUnit c p m) (hp : p+m+1 < 31) :
    roundPage p (probe (p+m+1)) ≠ c.representableLength (roundPage p (probe (p+m+1))) := by
  have hround := probe_roundPage (p := p) (m := m) hp
  have hpow : 2^(p+m+1) ≤ 2^30 := Nat.pow_le_pow_right (by decide) (by omega)
  have hpage : 2^p ≤ 2^(p+m+1) := Nat.pow_le_pow_right (by decide) (by omega)
  rw [ne_eq,hc.eq_self_iff (by omega) (by omega),hround]
  exact not_unit_dvd

theorem lengthLoop_next {shift : Nat} (hs : p+shift < 31)
    (h : roundPage p (probe (p+shift)) = c.representableLength (roundPage p (probe (p+shift)))) :
    lengthLoop c p shift = lengthLoop c p (shift+1) := by
  rw [lengthLoop,if_pos hs]
  exact if_pos h

theorem lengthLoop_found {shift : Nat} (hs : p+shift < 31)
    (h : roundPage p (probe (p+shift)) ≠ c.representableLength (roundPage p (probe (p+shift)))) :
    lengthLoop c p shift = some (probe (p+shift)) := by
  rw [lengthLoop,if_pos hs]
  exact if_neg h

theorem RoundsToUnit.lengthLoop_eq (hc : RoundsToUnit c p m) (hp : p+m+1 < 31) {shift : Nat}
    (hs : shift ≤ m+1) : lengthLoop c p shift = some (probe (p+m+1)) := by
  induction hd : m+1-shift generalizing shift with
  | zero =>
    have he : shift = m+1 := by omega
    subst he
    exact lengthLoop_found hp (hc.unrepresentable hp)
  | succ d ih =>
    have hle : 2^(p+shift)+1 ≤ 2^(p+m+1) := by
      have hlt : 2^(p+shift) < 2^(p+m+1) := Nat.pow_lt_pow_right (by decide) (by omega)
      omega
    have hprobe := probe_toNat (show p+shift < 31 by omega)
    rw [lengthLoop_next (by omega) (hc.representable hp (by omega))]
    exact ih (by omega) (by omega)

theorem RoundsToUnit.padding (hc : RoundsToUnit c p m) (hp : p+m+1 < 31) :
    (roundPage p (probe (p+m+1))).toNat+2^p ≤ (c.representableLength (probe (p+m+1))).toNat := by
  have hpow : 2^(p+m+1) ≤ 2^30 := Nat.pow_le_pow_right (by decide) (by omega)
  have hpage : 2^p ≤ 2^(p+m+1) := Nat.pow_le_pow_right (by decide) (by omega)
  have hprobe := probe_toNat hp
  have htwo := Nat.pow_succ 2 p
  have hlt : 2^(p+m+1)+1 < 2^(p+m+2) := by
    rw [Nat.pow_succ 2 (p+m+1)]
    have hone : 1 < 2^(p+m+1) := Nat.one_lt_two_pow (by omega)
    omega
  rw [probe_roundPage hp,hc.next _ (by omega) (by omega),hprobe,
    unit_past (Nat.le_add_right _ _) hlt]
  have hd : 2^(p+1) ∣ 2^(p+m+1) := Nat.pow_dvd_pow 2 (by omega)
  have hdiff : 2^(p+1) ∣ roundUp (2^(p+1)) (2^(p+m+1)+1)-2^(p+m+1) :=
    Nat.dvd_sub (dvd_roundUp _ _) hd
  have hge : 2^(p+m+1)+1 ≤ roundUp (2^(p+1)) (2^(p+m+1)+1) := le_roundUp (Nat.two_pow_pos _) _
  have hstep := Nat.le_of_dvd (by omega) hdiff
  omega

end Search

/-- Both copies of the loop come to the shortest length whose rounding to pages is not
representable, and rounding that length itself leaves padding after its pages. -/
theorem unrepresentable_length_least (c : Cheri) (p m : Nat) (hp : p+m+1 < 31)
    (hc : RoundsToUnit c p m) : ∃ len, getUnrepresentableLength c p = some len ∧
      cheriabiUnrepresentableLength c p = some len ∧
      IsLeast {l | roundPage p l ≠ c.representableLength (roundPage p l)} len ∧
      roundPage p len < c.representableLength len := by
  have hloop := hc.lengthLoop_eq hp (Nat.zero_le (m+1))
  refine ⟨probe (p+m+1),hloop,hloop,⟨hc.unrepresentable hp,fun l hl => ?_⟩,?_⟩
  · by_contra hlt
    rw [UInt64.not_le,UInt64.lt_iff_toNat_lt,probe_toNat hp] at hlt
    exact hl (hc.representable hp (by omega))
  · have hpad := hc.padding hp
    have hpos := Nat.two_pow_pos p
    rw [UInt64.lt_iff_toNat_lt]
    omega

/-- A format with `m` bits after the leading one. -/
def floatingCheri (m : Nat) : Cheri where
  representableLength len := .ofNat (roundUp (unit m len.toNat) len.toNat)
  representableAlignmentMask len := ~~~(.ofNat (unit m len.toNat-1))

theorem floatingCheri_roundsToUnit (p m : Nat) : RoundsToUnit (floatingCheri m) p m where
  zero := by
    have hunit : unit m 0 = 1 := by rw [unit,Nat.log2_zero,Nat.zero_sub,pow_zero]
    change UInt64.ofNat (roundUp (unit m 0) 0) = 0
    rw [hunit]
    rfl
  next len hle hlen := by
    have hpos := Nat.two_pow_pos p
    have hunit : unit m len.toNat ≤ len.toNat :=
      (Nat.pow_le_pow_right (by decide) (Nat.sub_le _ _)).trans (Nat.log2_self_le (by omega))
    have hlt := roundUp_lt (unit_pos m len.toNat) len.toNat
    exact UInt64.toNat_ofNat_of_lt' (show _ < 2^64 by omega)

theorem unrepresentable_length_pages : ∃ len,
    getUnrepresentableLength (floatingCheri 9) 12 = some len ∧
      roundPage 12 len < (floatingCheri 9).representableLength len := by
  obtain ⟨len,hlen,-,-,hpad⟩ := unrepresentable_length_least (floatingCheri 9) 12 9 (by decide)
    (floatingCheri_roundsToUnit 12 9)
  exact ⟨len,hlen,hpad⟩

/-- With an `mmap` that returns the rounded length the test gets as far as its read, and
that is a read of the padding. -/
theorem vmReservationAccessFault_reads_padding {c : Cheri} {p m : Nat} (hp : p+m+1 < 31)
    (h₂ : 2 ≤ p) (hc : RoundsToUnit c p m) {mmap : UInt64 → Option MapCap}
    (hmmap : ∀ len, ∃ text, mmap len = some ⟨true,c.representableLength len,text⟩) :
    ∃ len off, getUnrepresentableLength c p = some len ∧
      vmReservationAccessFault c p mmap = some (.ok off) ∧ roundPage p len ≤ off := by
  have hloop := hc.lengthLoop_eq hp (Nat.zero_le (m+1))
  have hpad := hc.padding hp
  have hfour : 2^2 ≤ 2^p := Nat.pow_le_pow_right (by decide) h₂
  obtain ⟨text,hmap⟩ := hmmap (probe (p+m+1))
  have hgt : ¬ c.representableLength (probe (p+m+1)) ≤ roundPage p (probe (p+m+1)) := by
    rw [UInt64.le_iff_toNat_le]
    omega
  refine ⟨probe (p+m+1),c.representableLength (probe (p+m+1))-4,hloop,?_,?_⟩
  · rw [vmReservationAccessFault,getUnrepresentableLength,hloop]
    simp [verify,checkSyscall,Programs.failIf,hgt,hmap,bind,Except.bind,pure,Except.pure]
  · have hle : (4 : UInt64) ≤ c.representableLength (probe (p+m+1)) :=
      UInt64.le_iff_toNat_le.mpr (show 4 ≤ _ by omega)
    rw [UInt64.le_iff_toNat_le,UInt64.toNat_sub_of_le _ _ hle]
    change _ ≤ _-4
    omega

/-- The other test passes exactly where `mmap` gives that length a capability of the rounded
one; it looks at neither the tag nor the bounds. -/
theorem cheriabiMmapUnrepresentable_iff {c : Cheri} {p m : Nat} (hp : p+m+1 < 31)
    (hc : RoundsToUnit c p m) (mmap : UInt64 → Option MapCap) :
    cheriabiMmapUnrepresentable c p mmap = some (.ok ()) ↔
      ∃ len cap, getUnrepresentableLength c p = some len ∧ mmap len = some cap ∧
        cap.length = c.representableLength len := by
  have hloop := hc.lengthLoop_eq hp (Nat.zero_le (m+1))
  rw [cheriabiMmapUnrepresentable,cheriabiUnrepresentableLength,getUnrepresentableLength,hloop]
  cases hmap : mmap (probe (p+m+1)) with
  | none => simp [hmap]
  | some cap => simp [hmap,verify,Programs.failIf_eq_ok]

end CheriOsTest.Unrepresentable
