import Mathlib
set_option autoImplicit false

/-! Byte files. A file is its list of bytes; positioned reads and writes and
little-endian words are functions of that list. Nothing here knows about ELF. -/

namespace CheriOsTest.Bytes

/-- A positioned read of at most `n` bytes: short at the end of the file. -/
def pread (f : List UInt8) (off n : Nat) : List UInt8 := (f.drop off).take n

/-- A positioned write. A gap between the end of the file and `off` is filled
with zero bytes. -/
def pwrite (f : List UInt8) (off : Nat) (bs : List UInt8) : List UInt8 :=
  f.take off ++ List.replicate (off-f.length) 0 ++ bs ++ f.drop (off+bs.length)

@[simp] theorem pread_length (f : List UInt8) (off n : Nat) :
    (pread f off n).length = min n (f.length-off) := by simp [pread]

theorem pread_full_iff (f : List UInt8) (off n : Nat) (hn : 0 < n) :
    (pread f off n).length = n ↔ off+n ≤ f.length := by
  rw [pread_length]; omega

theorem getElem?_pread (f : List UInt8) (off n i : Nat) :
    (pread f off n)[i]? = if i < n then f[off+i]? else none := by
  simp only [pread,List.getElem?_take,List.getElem?_drop]

theorem pwrite_length {f bs : List UInt8} {off : Nat} (h : off+bs.length ≤ f.length) :
    (pwrite f off bs).length = f.length := by
  simp [pwrite]; omega

theorem getElem?_pwrite {f bs : List UInt8} {off : Nat} (h : off+bs.length ≤ f.length)
    (i : Nat) :
    (pwrite f off bs)[i]? =
      if i < off then f[i]? else if i < off+bs.length then bs[i-off]? else f[i]? := by
  have hz : off-f.length = 0 := by omega
  have ht : (f.take off).length = off := by simp; omega
  simp only [pwrite,hz,List.replicate_zero,List.append_nil]
  by_cases h₁ : i < off
  · rw [List.getElem?_append_left (by simp; omega),List.getElem?_append_left (by omega)]
    simp [h₁]
  by_cases h₂ : i < off+bs.length
  · rw [List.getElem?_append_left (by simp; omega),List.getElem?_append_right (by omega),ht]
    simp [h₁,h₂]
  · rw [List.getElem?_append_right (by simp; omega)]
    have hi : off+bs.length+(i-(min off f.length+bs.length)) = i := by omega
    simp [h₁,h₂,hi]

theorem pread_pwrite_same {f bs : List UInt8} {off : Nat} (h : off+bs.length ≤ f.length) :
    pread (pwrite f off bs) off bs.length = bs := by
  apply List.ext_getElem?
  intro i
  rw [getElem?_pread,getElem?_pwrite h]
  by_cases hi : i < bs.length
  · simp [hi]
  · simp [hi]

/-- The frame rule: a read that does not meet the written range sees the old file. -/
theorem pread_pwrite_disjoint {f bs : List UInt8} {off : Nat} (h : off+bs.length ≤ f.length)
    {o n : Nat} (hd : o+n ≤ off ∨ off+bs.length ≤ o) :
    pread (pwrite f off bs) o n = pread f o n := by
  apply List.ext_getElem?
  intro i
  rw [getElem?_pread,getElem?_pread,getElem?_pwrite h]
  by_cases hi : i < n
  · simp only [hi,if_true]
    rcases hd with hd | hd
    · rw [if_pos (by omega)]
    · rw [if_neg (by omega),if_neg (by omega)]
  · simp only [hi,if_false]

theorem pwrite_pwrite_same {f bs cs : List UInt8} {off : Nat}
    (h : off+bs.length ≤ f.length) (hl : cs.length = bs.length) :
    pwrite (pwrite f off bs) off cs = pwrite f off cs := by
  have hc : off+cs.length ≤ f.length := by omega
  apply List.ext_getElem?
  intro i
  rw [getElem?_pwrite (by rw [pwrite_length h]; omega),getElem?_pwrite h,getElem?_pwrite hc]
  by_cases h₁ : i < off
  · simp only [h₁,if_true]
  by_cases h₂ : i < off+cs.length
  · simp only [h₁,h₂,if_true,if_false]
  · have h₃ : ¬ i < off+bs.length := by omega
    simp only [h₁,h₂,h₃,if_false]

/-- The bytes `bs` stand in the file from position `pos` on. -/
def HasAt (f : List UInt8) (pos : Nat) (bs : List UInt8) : Prop := bs <+: f.drop pos

theorem hasAt_append (f : List UInt8) (pos : Nat) (bs cs : List UInt8) :
    HasAt f pos (bs ++ cs) ↔ HasAt f pos bs ∧ HasAt f (pos+bs.length) cs := by
  constructor
  · rintro ⟨t,ht⟩
    refine ⟨⟨cs ++ t,by simpa using ht⟩,⟨t,?_⟩⟩
    rw [← List.drop_drop,← ht]
    simp
  · rintro ⟨⟨t,ht⟩,⟨u,hu⟩⟩
    rw [← List.drop_drop,← ht,List.drop_left] at hu
    exact ⟨u,by rw [← ht,← hu,List.append_assoc]⟩

theorem HasAt.shorten {f bs cs : List UInt8} {pos : Nat} (h : HasAt f pos bs)
    (hc : cs <+: bs) : HasAt f pos cs := List.IsPrefix.trans hc h

theorem HasAt.pread_eq {f bs : List UInt8} {pos : Nat} (h : HasAt f pos bs) :
    pread f pos bs.length = bs := by
  obtain ⟨t,ht⟩ := h
  simp [pread,← ht]

theorem HasAt.le_length {f bs : List UInt8} {pos : Nat} (h : HasAt f pos bs)
    (hb : bs ≠ []) : pos+bs.length ≤ f.length := by
  have hl := h.length_le
  have hp := List.length_pos_of_ne_nil hb
  simp only [List.length_drop] at hl
  omega

/-- The number written by a little-endian byte string. -/
def leNat (bs : List UInt8) : Nat := Nat.ofDigits 256 (bs.map UInt8.toNat)

/-- The `n` little-endian bytes of a number. -/
def leBytes : Nat → Nat → List UInt8
  | 0, _ => []
  | n+1, v => UInt8.ofNat v :: leBytes n (v/256)

@[simp] theorem leNat_nil : leNat [] = 0 := rfl

@[simp] theorem leNat_cons (b : UInt8) (bs : List UInt8) :
    leNat (b :: bs) = b.toNat+256*leNat bs := by
  simp [leNat,Nat.ofDigits_cons]

@[simp] theorem leBytes_length (n v : Nat) : (leBytes n v).length = n := by
  induction n generalizing v with
  | zero => rfl
  | succ n ih => simp [leBytes,ih]

theorem leNat_lt (bs : List UInt8) : leNat bs < 256^bs.length := by
  have h := Nat.ofDigits_lt_base_pow_length (b := 256) (l := bs.map UInt8.toNat)
    (by decide) (by
      intro x hx
      obtain ⟨b,_,rfl⟩ := List.mem_map.mp hx
      exact b.toNat_lt)
  simpa [leNat] using h

theorem leNat_leBytes (n v : Nat) (h : v < 256^n) : leNat (leBytes n v) = v := by
  induction n generalizing v with
  | zero => simp only [Nat.pow_zero] at h; simp [leBytes]; omega
  | succ n ih =>
    have hv : v/256 < 256^n := Nat.div_lt_of_lt_mul (by rw [Nat.pow_succ] at h; omega)
    simp only [leBytes,leNat_cons,ih _ hv,UInt8.toNat_ofNat']
    omega

theorem leBytes_leNat (bs : List UInt8) : leBytes bs.length (leNat bs) = bs := by
  induction bs with
  | nil => rfl
  | cons b bs ih =>
    have hb := b.toNat_lt
    have hd : (b.toNat+256*leNat bs)/256 = leNat bs := by omega
    have hm : UInt8.ofNat (b.toNat+256*leNat bs) = b := by
      apply UInt8.toNat.inj
      rw [UInt8.toNat_ofNat']
      omega
    simp only [List.length_cons,leBytes,leNat_cons,hd,hm,ih]

end CheriOsTest.Bytes
