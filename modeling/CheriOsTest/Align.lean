import Mathlib
set_option autoImplicit false

/-! Rounding up to a multiple, on numbers and on machine words. The word
operation is the usual mask `(x+a-1) & ~(a-1)`; it agrees with the rounding on
numbers as long as `x+a-1` does not wrap. -/

namespace CheriOsTest.Align

/-- The least multiple of `a` that is not below `n`. -/
def roundUp (a n : Nat) : Nat := (n+(a-1))/a*a

theorem le_roundUp {a : Nat} (ha : 0 < a) (n : Nat) : n ≤ roundUp a n := by
  have hm := Nat.mod_lt (n+(a-1)) ha
  have hd := Nat.div_add_mod' (n+(a-1)) a
  unfold roundUp; omega

theorem roundUp_lt {a : Nat} (ha : 0 < a) (n : Nat) : roundUp a n < n+a := by
  have hd := Nat.div_mul_le_self (n+(a-1)) a
  unfold roundUp; omega

theorem dvd_roundUp (a n : Nat) : a ∣ roundUp a n := Nat.dvd_mul_left a _

/-- Leastness: every multiple from `n` on is from `roundUp a n` on. -/
theorem roundUp_le {a n q : Nat} (hq : a ∣ q) (hn : n ≤ q) : roundUp a n ≤ q := by
  obtain ⟨k,rfl⟩ := hq
  rcases Nat.eq_zero_or_pos a with rfl | ha
  · simp [roundUp]
  have hlt : n+(a-1) < (k+1)*a := by rw [Nat.succ_mul,Nat.mul_comm k a]; omega
  have hk : (n+(a-1))/a ≤ k := Nat.lt_succ_iff.mp (Nat.div_lt_of_lt_mul (by
    rw [Nat.mul_comm]; exact hlt))
  rw [roundUp,Nat.mul_comm a k]
  exact Nat.mul_le_mul_right a hk

/-- Clearing the low `k` bits rounds down to a multiple of `2^k`. -/
theorem toNat_and_not_mask {w : Nat} (x : BitVec w) (k : Nat) :
    (x &&& ~~~(BitVec.ofNat w (2^k-1))).toNat = x.toNat/2^k*2^k := by
  have hx : x &&& ~~~(BitVec.ofNat w (2^k-1)) = (x >>> k) <<< k := by
    apply BitVec.eq_of_getLsbD_eq
    intro i hi
    simp only [BitVec.getLsbD_and,BitVec.getLsbD_not,BitVec.getLsbD_ofNat,
      Nat.testBit_two_pow_sub_one,BitVec.getLsbD_shiftLeft,BitVec.getLsbD_ushiftRight]
    by_cases hk : i < k
    · simp [hi,hk]
    · have hs : k+(i-k) = i := by omega
      simp [hi,hk,hs]
  have hle := Nat.div_mul_le_self x.toNat (2^k)
  have hlt := x.isLt
  rw [hx,BitVec.toNat_shiftLeft,BitVec.toNat_ushiftRight,Nat.shiftRight_eq_div_pow,
    Nat.shiftLeft_eq,Nat.mod_eq_of_lt (by omega)]

theorem sub_one_eq_mask {w : Nat} (a : BitVec w) (k : Nat) (ha : a.toNat = 2^k) :
    a-1 = BitVec.ofNat w (2^k-1) := by
  have hp := Nat.two_pow_pos k
  have hlt := a.isLt
  apply BitVec.eq_of_toNat_eq
  rcases Nat.eq_zero_or_pos w with rfl | hw
  · omega
  have h1 : 1 < 2^w := Nat.one_lt_two_pow (by omega)
  have ho : (1 : BitVec w).toNat = 1 := by
    change (BitVec.ofNat w 1).toNat = 1
    rw [BitVec.toNat_ofNat,Nat.mod_eq_of_lt h1]
  rw [BitVec.toNat_sub,BitVec.toNat_ofNat,ho,ha,
    show 2^w-1+2^k = 2^w+(2^k-1) by omega,Nat.add_mod_left]

theorem toNat_roundUp_mask {w : Nat} (x a : BitVec w) (k : Nat) (ha : a.toNat = 2^k)
    (h : x.toNat+(2^k-1) < 2^w) :
    ((x+(a-1)) &&& ~~~(a-1)).toNat = roundUp (2^k) x.toNat := by
  have hlt := a.isLt
  have hp := Nat.two_pow_pos k
  rw [sub_one_eq_mask a k ha,toNat_and_not_mask,BitVec.toNat_add,BitVec.toNat_ofNat,
    Nat.mod_eq_of_lt (show 2^k-1 < 2^w by omega),Nat.mod_eq_of_lt h,roundUp]

end CheriOsTest.Align
