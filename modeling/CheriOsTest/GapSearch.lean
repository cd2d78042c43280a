import CheriOsTest.AddressGap
set_option autoImplicit false

/-! What the two searches find. On a map of disjoint mappings each answer is free
and aligned, the one lowest of all, the other first in the highest gap. -/

namespace CheriOsTest.AddressGap
open CheriOsTest.Align CheriOsTest.CStrings CheriOsTest.Search

/-- The address `x` is mapped. -/
def Mapping.Covers (m : Mapping) (x : Nat) : Prop := m.start.toNat ≤ x ∧ x < m.stop.toNat

/-- A map of the address space: mappings in the order of their addresses, none of
which share an address. -/
structure MemoryMap where
  entries : List Mapping
  nonempty : entries ≠ []
  start_pos : ∀ m ∈ entries, 0 < m.start.toNat
  start_lt : ∀ m ∈ entries, m.start.toNat < m.stop.toNat
  stop_le : ∀ m ∈ entries, m.stop.toNat ≤ 2^63
  sorted : entries.Pairwise (fun a b => a.start.toNat ≤ b.start.toNat)
  disjoint : entries.Pairwise (fun a b => ∀ x, ¬ (a.Covers x ∧ b.Covers x))

/-- An aligned region of the given length at `x` lies between `a` and `b`. -/
def FitsBetween (a b : Mapping) (len align x : Nat) : Prop :=
  align ∣ x ∧ a.stop.toNat ≤ x ∧ x+len ≤ b.start.toNat

def Fits (map : MemoryMap) (len align x : Nat) : Prop :=
  ∃ a b, Neighbours map.entries a b ∧ FitsBetween a b len align x

/-- `x` is the first fit of its gap, and no gap above has one. -/
def FirstOfHighest (map : MemoryMap) (len align x : Nat) : Prop :=
  ∃ a b, Neighbours map.entries a b ∧ IsLeast {y | FitsBetween a b len align y} x ∧
    ∀ a' b' y, Neighbours map.entries a' b' → FitsBetween a' b' len align y →
      a'.stop.toNat ≤ a.stop.toNat

/-- What the two operations of the format are relied on for: a mask is a run of
ones from some bit on, a representable length is the length rounded up by its mask and
its own rounding, and a base that the mask of a length leaves alone makes a region of
the rounded length exactly representable. -/
structure Cheri.Architectural (c : Cheri) (Representable : Nat → Nat → Prop) : Prop where
  mask : ∀ len, ∃ e, e < 64 ∧ (c.representableAlignmentMask len).toNat = 2^64-2^e
  length : ∀ len, c.representableLength len =
    (len+~~~(c.representableAlignmentMask len)) &&& c.representableAlignmentMask len
  rounded : ∀ len, c.representableLength (c.representableLength len) = c.representableLength len
  exact : ∀ len base, base &&& c.representableAlignmentMask len = base →
    Representable base.toNat (c.representableLength len).toNat

theorem MemoryMap.ordered (map : MemoryMap) :
    map.entries.Pairwise (fun a b => a.stop.toNat ≤ b.start.toNat) := by
  have h := map.sorted.and map.disjoint
  refine h.imp_of_mem fun {a b} _ hb hab => ?_
  by_contra hlt
  exact hab.2 b.start.toNat ⟨⟨hab.1,by omega⟩,le_refl _,map.start_lt b hb⟩

/-- On either side of a gap of the map. -/
theorem MemoryMap.split {map : MemoryMap} {p q : List Mapping} {a b : Mapping}
    (h : map.entries = p ++ a :: b :: q) :
    (∀ m ∈ p ++ [a], m.stop.toNat ≤ a.stop.toNat) ∧
      ∀ m ∈ b :: q, b.start.toNat ≤ m.start.toNat := by
  have hlt := map.start_lt
  have ho := map.ordered
  rw [h] at hlt ho
  rw [List.pairwise_append,List.pairwise_cons,List.pairwise_cons] at ho
  obtain ⟨-,⟨-,hb,-⟩,hp⟩ := ho
  constructor
  · intro m hm
    rcases List.mem_append.mp hm with hm | hm
    · have h₁ := hp m hm a (by simp)
      have h₂ := hlt a (by simp)
      omega
    · rw [List.mem_singleton.mp hm]
  · intro m hm
    rcases List.mem_cons.mp hm with rfl | hm
    · exact le_refl _
    · have h₁ := hb m hm
      have h₂ := hlt b (by simp)
      omega

/-- A region that fits is free: no mapping covers an address of it. -/
theorem Fits.free {map : MemoryMap} {len align x y : Nat} (h : Fits map len align x)
    (hx : x ≤ y) (hy : y < x+len) {m : Mapping} (hm : m ∈ map.entries) : ¬ m.Covers y := by
  intro hc
  obtain ⟨a,b,⟨p,q,hn⟩,-,ha,hb⟩ := h
  obtain ⟨hbelow,habove⟩ := MemoryMap.split hn
  have hstart := hc.1
  have hstop := hc.2
  have hm' : m ∈ p ++ [a] ∨ m ∈ b :: q := by
    rw [hn] at hm
    simpa [or_assoc] using hm
  rcases hm' with hm | hm
  · have h := hbelow m hm
    omega
  · have h := habove m hm
    omega

section Gap

variable {a b : Mapping} {len align x : UInt64} {e : Nat}

theorem alignUp_toNat (he : align.toNat = 2^e) (he' : e < 64) (hx : x.toNat ≤ 2^63) :
    (alignUp x align).toNat = roundUp (2^e) x.toNat := by
  have hp := Nat.pow_le_pow_right (by decide : 0 < 2) (by omega : e ≤ 63)
  have hpos := Nat.two_pow_pos e
  have hsum : x.toNat+(2^e-1) < 2^64 := by omega
  exact toNat_roundUp_mask x.toBitVec align.toBitVec e he hsum

/-- The test of a gap asks whether its first aligned address leaves room. -/
theorem gapAt_cases (he : align.toNat = 2^e) (he' : e < 64) (ha : a.stop.toNat ≤ 2^63) :
    (roundUp (2^e) a.stop.toNat+len.toNat ≤ b.start.toNat ∧
      gapAt len align a b = some (alignUp a.stop align)) ∨
    (b.start.toNat < roundUp (2^e) a.stop.toNat+len.toNat ∧ gapAt len align a b = none) := by
  have hup := alignUp_toNat he he' ha
  rw [gapAt]
  by_cases h₁ : alignUp a.stop align > b.start
  · have h := UInt64.lt_iff_toNat_lt.mp h₁
    exact .inr ⟨by omega,if_pos h₁⟩
  rw [if_neg h₁]
  have hle : alignUp a.stop align ≤ b.start := UInt64.not_lt.mp h₁
  have hle' := UInt64.le_iff_toNat_le.mp hle
  have hsub := UInt64.toNat_sub_of_le _ _ hle
  by_cases h₂ : b.start-alignUp a.stop align ≥ len
  · have h := UInt64.le_iff_toNat_le.mp h₂
    exact .inl ⟨by omega,if_pos h₂⟩
  · have h := UInt64.lt_iff_toNat_lt.mp (UInt64.not_le.mp h₂)
    exact .inr ⟨by omega,if_neg h₂⟩

theorem gapAt_eq_some (he : align.toNat = 2^e) (he' : e < 64) (ha : a.stop.toNat ≤ 2^63)
    (h : gapAt len align a b = some x) :
    IsLeast {y | FitsBetween a b len.toNat align.toNat y} x.toNat := by
  rcases gapAt_cases he he' ha with ⟨hfit,hs⟩ | ⟨-,hn⟩
  · rw [h] at hs
    cases hs
    rw [alignUp_toNat he he' ha,he]
    refine ⟨⟨dvd_roundUp _ _,le_roundUp (Nat.two_pow_pos e) _,hfit⟩,?_⟩
    intro y hy
    exact roundUp_le hy.1 hy.2.1
  · rw [h] at hn
    cases hn

theorem gapAt_eq_none (he : align.toNat = 2^e) (he' : e < 64) (ha : a.stop.toNat ≤ 2^63)
    (h : gapAt len align a b = none) (y : Nat) :
    ¬ FitsBetween a b len.toNat align.toNat y := by
  intro hy
  rcases gapAt_cases he he' ha with ⟨-,hs⟩ | ⟨hno,-⟩
  · rw [h] at hs
    cases hs
  · have hle : roundUp (2^e) a.stop.toNat ≤ y := roundUp_le (he ▸ hy.1) hy.2.1
    have hend := hy.2.2
    omega

end Gap

section Search

variable {map : MemoryMap} {len align x : UInt64} {e : Nat}

theorem stop_le_of_neighbours {a b : Mapping} (h : Neighbours map.entries a b) :
    a.stop.toNat ≤ 2^63 := map.stop_le a h.mem.1

/-- Upwards, the first answer is the lowest of all. -/
theorem searchUp_eq_some (he : align.toNat = 2^e) (he' : e < 64)
    (h : firstNeighbours (gapAt len align) map.entries = some x) :
    IsLeast {y | Fits map len.toNat align.toNat y} x.toNat := by
  obtain ⟨p,a,b,q,hl,hx,hno⟩ := firstNeighbours_eq_some h
  have hn : Neighbours map.entries a b := ⟨p,q,hl⟩
  have hleast := gapAt_eq_some he he' (stop_le_of_neighbours hn) hx
  refine ⟨⟨a,b,hn,hleast.1⟩,?_⟩
  intro y hy
  obtain ⟨c,d,hcd,hfit⟩ := hy
  have hc := stop_le_of_neighbours hcd
  have hmem := hcd
  rw [hl] at hcd
  rcases neighbours_append hcd with hcd | ⟨rfl,rfl⟩ | hcd
  · exact absurd hfit (gapAt_eq_none he he' hc (hno c d hcd) y)
  · exact hleast.2 hfit
  · -- a gap further up begins above the end of the answer
    have h₁ := (MemoryMap.split hl).2 c hcd.mem.1
    have h₂ := map.start_lt c hmem.mem.1
    have h₃ := hleast.1.2.2
    have h₄ := hfit.2.1
    omega

/-- Downwards, the first answer is the first fit of the highest gap that has one. -/
theorem searchDown_eq_some (he : align.toNat = 2^e) (he' : e < 64)
    (h : firstNeighbours (fun b a => gapAt len align a b) map.entries.reverse = some x) :
    FirstOfHighest map len.toNat align.toNat x.toNat := by
  obtain ⟨p,b,a,q,hl,hx,hno⟩ := firstNeighbours_eq_some h
  have hl' : map.entries = q.reverse ++ a :: b :: p.reverse := by
    rw [← List.reverse_reverse map.entries,hl]
    simp
  have hn : Neighbours map.entries a b := ⟨_,_,hl'⟩
  refine ⟨a,b,hn,gapAt_eq_some he he' (stop_le_of_neighbours hn) hx,?_⟩
  intro c d y hcd hfit
  have hc := stop_le_of_neighbours hcd
  rw [hl'] at hcd
  rcases neighbours_append hcd with hcd | ⟨rfl,rfl⟩ | hcd
  · exact (MemoryMap.split hl').1 c hcd.mem.1
  · exact le_refl _
  · have hdc : Neighbours (p ++ [b]) d c := by
      rw [← neighbours_reverse]
      simpa using hcd
    exact absurd hfit (gapAt_eq_none he he' hc (hno d c hdc) y)

theorem searchUp_eq_none (he : align.toNat = 2^e) (he' : e < 64) :
    firstNeighbours (gapAt len align) map.entries = none ↔
      ¬ ∃ y, Fits map len.toNat align.toNat y := by
  constructor
  · intro h hy
    obtain ⟨y,a,b,hn,hfit⟩ := hy
    exact gapAt_eq_none he he' (stop_le_of_neighbours hn)
      (firstNeighbours_eq_none.mp h a b hn) y hfit
  · intro hno
    cases h : firstNeighbours (gapAt len align) map.entries with
    | none => rfl
    | some x => exact absurd ⟨_,(searchUp_eq_some he he' h).1⟩ hno

theorem searchDown_eq_none (he : align.toNat = 2^e) (he' : e < 64) :
    firstNeighbours (fun b a => gapAt len align a b) map.entries.reverse = none ↔
      ¬ ∃ y, Fits map len.toNat align.toNat y := by
  rw [← searchUp_eq_none he he',firstNeighbours_eq_none,firstNeighbours_eq_none]
  simp only [neighbours_reverse]
  exact ⟨fun h a b hn => h b a hn,fun h b a hn => h a b hn⟩

end Search

section Versions

variable {c : Cheri} {map : MemoryMap} {len align : UInt64} {e : Nat}

theorem Fits.pos {n m y : Nat} (h : Fits map n m y) : 0 < y := by
  obtain ⟨a,b,hn,hfit⟩ := h
  have h₁ := map.start_lt a hn.mem.1
  have h₂ := hfit.2.1
  omega

/-- The zero that stands for no answer is never an answer. -/
theorem getD_zero {r : Option UInt64} (message : CString) (h : ∀ x, r = some x → 0 < x.toNat) :
    (if r.getD 0 = 0 then .error message else .ok (r.getD 0) : Except CString UInt64) =
      r.elim (.error message) .ok := by
  cases r with
  | none => rfl
  | some x =>
    have hx : x ≠ 0 := by
      intro hx
      subst hx
      exact absurd (h 0 rfl) (by decide)
    simp [hx]

theorem findAddressSpaceGapFreeBSD_eq (he : (effective c len align).2.toNat = 2^e) (he' : e < 64) :
    findAddressSpaceGapFreeBSD c map.entries len align =
      (firstNeighbours (gapAt (effective c len align).1 (effective c len align).2)
        map.entries).elim (.error (noFreeRegion (effective c len align).1)) .ok := by
  rw [← getD_zero _ (fun x hx => (searchUp_eq_some he he' hx).1.pos),findAddressSpaceGapFreeBSD]
  simp only [kivpLoop_eq _ _ _ 0,List.drop_zero]

theorem findAddressSpaceGapLinux_eq (he : (effective c len align).2.toNat = 2^e) (he' : e < 64) :
    findAddressSpaceGapLinux c map.entries len align =
      (firstNeighbours (fun b a => gapAt (effective c len align).1 (effective c len align).2 a b)
        map.entries.reverse).elim (.error (noFreeRegion (effective c len align).1)) .ok := by
  have hpos : ∀ x, firstNeighbours (fun b a => gapAt (effective c len align).1
      (effective c len align).2 a b) map.entries.reverse = some x → 0 < x.toNat := by
    intro x hx
    obtain ⟨a,b,hn,hleast,-⟩ := searchDown_eq_some he he' hx
    exact Fits.pos ⟨a,b,hn,hleast.1⟩
  rw [← getD_zero _ hpos,findAddressSpaceGapLinux,insertHead_eq]
  simp only [← vmaLoop_eq,List.length_reverse]

theorem freeBSD_found (he : (effective c len align).2.toNat = 2^e) (he' : e < 64)
    {addr : UInt64} (h : findAddressSpaceGapFreeBSD c map.entries len align = .ok addr) :
    IsLeast {x | Fits map (effective c len align).1.toNat (effective c len align).2.toNat x}
      addr.toNat := by
  rw [findAddressSpaceGapFreeBSD_eq he he'] at h
  cases hs : firstNeighbours (gapAt (effective c len align).1 (effective c len align).2)
      map.entries with
  | none => rw [hs] at h; cases h
  | some x =>
    rw [hs] at h
    cases h
    exact searchUp_eq_some he he' hs

theorem linux_found (he : (effective c len align).2.toNat = 2^e) (he' : e < 64)
    {addr : UInt64} (h : findAddressSpaceGapLinux c map.entries len align = .ok addr) :
    FirstOfHighest map (effective c len align).1.toNat (effective c len align).2.toNat
      addr.toNat := by
  rw [findAddressSpaceGapLinux_eq he he'] at h
  cases hs : firstNeighbours (fun b a => gapAt (effective c len align).1
      (effective c len align).2 a b) map.entries.reverse with
  | none => rw [hs] at h; cases h
  | some x =>
    rw [hs] at h
    cases h
    exact searchDown_eq_some he he' hs

theorem freeBSD_failed (he : (effective c len align).2.toNat = 2^e) (he' : e < 64) :
    (∃ message, findAddressSpaceGapFreeBSD c map.entries len align = .error message) ↔
      ¬ ∃ x, Fits map (effective c len align).1.toNat (effective c len align).2.toNat x := by
  rw [← searchUp_eq_none he he',findAddressSpaceGapFreeBSD_eq he he']
  cases firstNeighbours (gapAt (effective c len align).1 (effective c len align).2)
    map.entries <;> simp

theorem linux_failed (he : (effective c len align).2.toNat = 2^e) (he' : e < 64) :
    (∃ message, findAddressSpaceGapLinux c map.entries len align = .error message) ↔
      ¬ ∃ x, Fits map (effective c len align).1.toNat (effective c len align).2.toNat x := by
  rw [← searchDown_eq_none he he',findAddressSpaceGapLinux_eq he he']
  cases firstNeighbours (fun b a => gapAt (effective c len align).1
    (effective c len align).2 a b) map.entries.reverse <;> simp

/-- An alignment mask is the negation of the alignment. -/
theorem representableAlignment_toNat {len : UInt64} (he' : e < 64)
    (hm : (c.representableAlignmentMask len).toNat = 2^64-2^e) :
    (representableAlignment c len).toNat = 2^e := by
  have hp := Nat.pow_le_pow_right (by decide : 0 < 2) (by omega : e ≤ 63)
  have hpos := Nat.two_pow_pos e
  rw [representableAlignment,UInt64.toNat_add,UInt64.toNat_not,hm]
  change (2^64-1-(2^64-2^e)+1)%2^64 = 2^e
  omega

theorem mask_eq {mask : UInt64} (he : e < 64) (hm : mask.toNat = 2^64-2^e) :
    mask.toBitVec = ~~~(BitVec.ofNat 64 (2^e-1)) := by
  have hp := Nat.pow_le_pow_right (by decide : 0 < 2) (by omega : e ≤ 63)
  have hpos := Nat.two_pow_pos e
  apply BitVec.eq_of_toNat_eq
  rw [BitVec.toNat_not,BitVec.toNat_ofNat,Nat.mod_eq_of_lt (by omega),UInt64.toNat_toBitVec,hm]
  omega

theorem and_mask_of_dvd {mask addr : UInt64} (he' : e < 64) (hm : mask.toNat = 2^64-2^e)
    (hd : 2^e ∣ addr.toNat) : addr &&& mask = addr := by
  apply UInt64.toNat_inj.mp
  change (addr.toBitVec &&& mask.toBitVec).toNat = addr.toNat
  rw [mask_eq he' hm,toNat_and_not_mask]
  exact Nat.div_mul_cancel hd

theorem effective_pow {Representable : Nat → Nat → Prop} (hc : c.Architectural Representable)
    (ha : align = 0 ∨ ∃ e, e ≤ 63 ∧ align.toNat = 2^e) :
    ∃ e, e < 64 ∧ (effective c len align).2.toNat = 2^e := by
  by_cases h : align = 0
  · obtain ⟨e,he,hm⟩ := hc.mask (c.representableLength len)
    exact ⟨e,he,by rw [effective,if_pos h]; exact representableAlignment_toNat he hm⟩
  · obtain ⟨e,he,hm⟩ := ha.resolve_left h
    exact ⟨e,by omega,by rw [effective,if_neg h]; exact hm⟩

/-- With no alignment asked for, an aligned region of the effective length is
exactly representable. -/
theorem representable_of_dvd {Representable : Nat → Nat → Prop}
    (hc : c.Architectural Representable) {addr : UInt64}
    (hd : (effective c len 0).2.toNat ∣ addr.toNat) :
    Representable addr.toNat (effective c len 0).1.toNat := by
  obtain ⟨e,he,hm⟩ := hc.mask (c.representableLength len)
  have ha : (effective c len 0).2.toNat = 2^e := representableAlignment_toNat he hm
  rw [ha] at hd
  have h := hc.exact (c.representableLength len) addr (and_mask_of_dvd he hm hd)
  rwa [hc.rounded] at h

end Versions

/-- What is asked for is what is searched for; with no alignment asked for, it is the
representable length and its alignment. -/
structure Effective (c : Cheri) (len align : UInt64) (n al : Nat) : Prop where
  asked : align ≠ 0 → n = len.toNat ∧ al = align.toNat
  length : align = 0 → n = (c.representableLength len).toNat
  align : align = 0 →
    al = 2^64-(c.representableAlignmentMask (c.representableLength len)).toNat
  /-- Rounding up does not wrap up to 2^63. -/
  le : len.toNat ≤ 2^63 → len.toNat ≤ n

theorem le_representableLength {c : Cheri} {Representable : Nat → Nat → Prop}
    (hc : c.Architectural Representable) {len : UInt64} (hlen : len.toNat ≤ 2^63) :
    len.toNat ≤ (c.representableLength len).toNat := by
  obtain ⟨e,he,hm⟩ := hc.mask len
  have hp := Nat.pow_le_pow_right (by decide : 0 < 2) (by omega : e ≤ 63)
  have hpos := Nat.two_pow_pos e
  have hlow : (~~~(c.representableAlignmentMask len)).toNat = 2^e-1 := by
    rw [UInt64.toNat_not,hm]
    change 2^64-1-(2^64-2^e) = 2^e-1
    omega
  have hsum : (len+~~~(c.representableAlignmentMask len)).toNat = len.toNat+(2^e-1) := by
    rw [UInt64.toNat_add,hlow]
    omega
  have hround : (c.representableLength len).toNat = roundUp (2^e) len.toNat := by
    rw [hc.length,← UInt64.toNat_toBitVec,UInt64.toBitVec_and,mask_eq he hm,toNat_and_not_mask,
      UInt64.toNat_toBitVec,hsum,roundUp]
  rw [hround]
  exact le_roundUp hpos _

theorem effective_spec {c : Cheri} {Representable : Nat → Nat → Prop}
    (hc : c.Architectural Representable) (len align : UInt64) :
    Effective c len align (effective c len align).1.toNat (effective c len align).2.toNat := by
  by_cases h : align = 0
  · obtain ⟨e,he,hm⟩ := hc.mask (c.representableLength len)
    have hal := representableAlignment_toNat he hm
    have hp := Nat.pow_le_pow_right (by decide : 0 < 2) (by omega : e ≤ 63)
    rw [effective,if_pos h]
    exact ⟨fun hne => absurd h hne,fun _ => rfl,fun _ => by rw [hal,hm]; omega,
      le_representableLength hc⟩
  · rw [effective,if_neg h]
    exact ⟨fun _ => ⟨rfl,rfl⟩,fun h₀ => absurd h₀ h,fun h₀ => absurd h₀ h,fun _ => Nat.le_refl _⟩

/-- Both versions find a free aligned region between two mappings whenever there
is one: FreeBSD the lowest, Linux the first of the highest gap. -/
theorem findAddressSpaceGap_correct (c : Cheri) (Representable : Nat → Nat → Prop)
    (hc : c.Architectural Representable) (map : MemoryMap) (len align : UInt64)
    (ha : align = 0 ∨ ∃ e, e ≤ 63 ∧ align.toNat = 2^e) :
    let n := (effective c len align).1.toNat
    let al := (effective c len align).2.toNat
    let freeBSD := findAddressSpaceGapFreeBSD c map.entries len align
    let linux := findAddressSpaceGapLinux c map.entries len align
    Effective c len align n al ∧
    (∀ addr, freeBSD = .ok addr → IsLeast {x | Fits map n al x} addr.toNat) ∧
    (∀ addr, linux = .ok addr → FirstOfHighest map n al addr.toNat) ∧
    ((∃ message, freeBSD = .error message) ↔ ¬ ∃ x, Fits map n al x) ∧
    ((∃ message, linux = .error message) ↔ ¬ ∃ x, Fits map n al x) ∧
    ∀ addr, freeBSD = .ok addr ∨ linux = .ok addr → al ∣ addr.toNat ∧
      (∀ m ∈ map.entries, ∀ x, addr.toNat ≤ x → x < addr.toNat+n → ¬ m.Covers x) ∧
      (align = 0 → Representable addr.toNat n) := by
  intro n al freeBSD linux
  obtain ⟨e,he',he⟩ : ∃ e, e < 64 ∧ (effective c len align).2.toNat = 2^e :=
    effective_pow hc ha
  refine ⟨effective_spec hc len align,fun _ => freeBSD_found he he',
    fun _ => linux_found he he',freeBSD_failed he he',linux_failed he he',?_⟩
  intro addr h
  have hfit : Fits map n al addr.toNat := by
    rcases h with h | h
    · exact (freeBSD_found he he' h).1
    · obtain ⟨a,b,hn,hleast,-⟩ := linux_found he he' h
      exact ⟨a,b,hn,hleast.1⟩
  have hd : al ∣ addr.toNat := by
    obtain ⟨a,b,-,hd,-⟩ := hfit
    exact hd
  refine ⟨hd,fun m hm x hx hx' => hfit.free hx hx' hm,fun h₀ => ?_⟩
  subst h₀
  exact representable_of_dvd hc hd

/-- The uncompressed format: every base and every length is representable. -/
def uncompressed : Cheri := ⟨id,fun _ => ~~~0⟩

theorem uncompressed_architectural : uncompressed.Architectural (fun _ _ => True) where
  mask _ := ⟨0,by decide,rfl⟩
  length len := by
    apply UInt64.toBitVec_inj.mp
    simp [uncompressed]
  rounded _ := rfl
  exact _ _ _ := trivial

/-- A format that represents the regions of whole pages. -/
def pages : Cheri := ⟨fun len => (len+~~~(~~~0xfff)) &&& ~~~0xfff,fun _ => ~~~0xfff⟩

theorem and_pages_toNat (x : UInt64) : (x &&& ~~~0xfff).toNat = x.toNat/4096*4096 := by
  have h := toNat_and_not_mask x.toBitVec 12
  rw [← UInt64.toNat_toBitVec,UInt64.toBitVec_and,UInt64.toBitVec_not]
  exact h

theorem pages_length_toNat (len : UInt64) :
    (pages.representableLength len).toNat = (len.toNat+4095)%2^64/4096*4096 := by
  change ((len+~~~(~~~0xfff)) &&& ~~~0xfff).toNat = _
  rw [and_pages_toNat,UInt64.toNat_add]
  rfl

theorem pages_architectural :
    pages.Architectural (fun base len => 4096 ∣ base ∧ 4096 ∣ len) where
  mask _ := ⟨12,by decide,rfl⟩
  length _ := rfl
  rounded len := by
    apply UInt64.toNat_inj.mp
    rw [pages_length_toNat,pages_length_toNat]
    omega
  exact len base hbase := by
    have hb := congrArg UInt64.toNat hbase
    change (base &&& ~~~0xfff).toNat = base.toNat at hb
    rw [and_pages_toNat] at hb
    rw [pages_length_toNat]
    exact ⟨by omega,by omega⟩

/-- Three mappings with a small gap below a large one. -/
def threeMappings : MemoryMap where
  entries := [⟨0x1000,0x3000⟩,⟨0x4800,0x8000⟩,⟨0x10000,0x11000⟩]
  nonempty := by simp
  start_pos := by decide
  start_lt := by decide
  stop_le := by decide
  sorted := by decide
  disjoint := by
    have h : List.Pairwise (fun a b : Mapping => a.stop.toNat ≤ b.start.toNat)
        [⟨0x1000,0x3000⟩,⟨0x4800,0x8000⟩,⟨0x10000,0x11000⟩] := by decide
    refine h.imp fun hab x hx => ?_
    have h₁ := hx.1.2
    have h₂ := hx.2.1
    omega

theorem findAddressSpaceGap_three :
    findAddressSpaceGapFreeBSD pages threeMappings.entries 2048 0 = .ok 0x3000 ∧
      IsLeast {x | Fits threeMappings 4096 4096 x} 0x3000 ∧
    findAddressSpaceGapLinux pages threeMappings.entries 2048 0 = .ok 0x8000 ∧
      FirstOfHighest threeMappings 4096 4096 0x8000 ∧
    Effective pages 2048 0 4096 4096 ∧ 4096 ∣ 0x3000 ∧ 4096 ∣ 0x8000 := by
  have hf : findAddressSpaceGapFreeBSD pages threeMappings.entries 2048 0 = .ok 0x3000 := by
    rw [findAddressSpaceGapFreeBSD_eq (e := 12) (by decide) (by decide)]
    rfl
  have hl : findAddressSpaceGapLinux pages threeMappings.entries 2048 0 = .ok 0x8000 := rfl
  obtain ⟨heff,hleast,hfirst,-,-,hall⟩ := findAddressSpaceGap_correct pages _ pages_architectural
    threeMappings 2048 0 (.inl rfl)
  exact ⟨hf,hleast 0x3000 hf,hl,hfirst 0x8000 hl,heff,((hall 0x3000 (.inl hf)).2.2 rfl).1,
    ((hall 0x8000 (.inr hl)).2.2 rfl).1⟩

end CheriOsTest.AddressGap
