import CheriOsTest.Align
set_option autoImplicit false

/-! Lengths and bounds in a floating format. A length has an exponent, that of its leading
bit, and `m` bits below that one; what is left of its low bits has to be zero. -/

namespace CheriOsTest.FloatingBounds
open CheriOsTest.Align

/-- What a length, and the bounds of a region of that length, have to be a multiple of. -/
def unit (m len : Nat) : Nat := 2^(Nat.log2 len-m)

variable {m k len : Nat}

theorem unit_pos (m len : Nat) : 0 < unit m len := Nat.two_pow_pos _

theorem log2_eq (hle : 2^k ≤ len) (hlt : len < 2^(k+1)) : Nat.log2 len = k := by
  have hpos := Nat.two_pow_pos k
  exact (Nat.log2_eq_iff (by omega)).mpr ⟨hle,hlt⟩

theorem unit_eq (hle : 2^k ≤ len) (hlt : len < 2^(k+1)) : unit m len = 2^(k-m) := by
  rw [unit,log2_eq hle hlt]

theorem unit_dvd (hlt : len < 2^(k+m+1)) : unit m len ∣ 2^k := by
  refine Nat.pow_dvd_pow 2 ?_
  rcases Nat.eq_zero_or_pos len with rfl | hpos
  · simp
  · have hlog := (Nat.log2_lt (by omega)).mpr hlt
    omega

/-- A multiple of `2^k` is its own rounding up to the first power of two that needs `2^(k+1)`. -/
theorem unit_dvd_multiple (hd : 2^k ∣ len) (hle : len ≤ 2^(k+m+1)) : unit m len ∣ len := by
  rcases Nat.lt_or_eq_of_le hle with hlt | rfl
  · exact (unit_dvd hlt).trans hd
  · rw [unit_eq (Nat.le_refl _) (Nat.pow_lt_pow_right (by decide) (Nat.lt_succ_self _))]
    exact Nat.pow_dvd_pow 2 (Nat.sub_le _ _)

theorem unit_past (hle : 2^(k+m+1) ≤ len) (hlt : len < 2^(k+m+2)) : unit m len = 2^(k+1) := by
  rw [unit_eq hle hlt]
  congr 1
  omega

theorem two_pow_add_lt : 2^(k+m+1)+2^k < 2^(k+m+2) := by
  have hk : 2^k < 2^(k+m+1) := Nat.pow_lt_pow_right (by decide) (by omega)
  rw [Nat.pow_succ 2 (k+m+1)]
  omega

theorem not_unit_dvd : ¬ unit m (2^(k+m+1)+2^k) ∣ 2^(k+m+1)+2^k := by
  rw [unit_past (Nat.le_add_right _ _) two_pow_add_lt]
  intro hd
  have hk : 2^(k+1) ∣ 2^k :=
    (Nat.dvd_add_right (Nat.pow_dvd_pow 2 (show k+1 ≤ k+m+1 by omega))).mp hd
  have hle := Nat.le_of_dvd (Nat.two_pow_pos k) hk
  have hlt : 2^k < 2^(k+1) := Nat.pow_lt_pow_right (by decide) (Nat.lt_succ_self k)
  omega

end CheriOsTest.FloatingBounds
