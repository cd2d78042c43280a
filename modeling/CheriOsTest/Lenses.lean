import Mathlib
set_option autoImplicit false

/-! The parts of a record and the bits of a word: what has been written is read back, and
putting back what was read undoes a write. -/

namespace CheriOsTest.Lenses

/-- A part of `σ` that can be read and written. -/
structure Lens (σ α : Type) where
  get : σ → α
  set : α → σ → σ
  get_set : ∀ a s, get (set a s) = a
  set_get : ∀ s, set (get s) s = s
  set_set : ∀ a b s, set a (set b s) = set a s

variable {σ α β γ : Type} {l : Lens σ α} {m : Lens σ β}

namespace Lens

theorem set_eq_self_iff {a : α} {s : σ} : l.set a s = s ↔ l.get s = a := by
  constructor
  · intro h
    rw [← h,l.get_set]
  · rintro rfl
    exact l.set_get s

theorem set_get_set (a : α) (s : σ) : l.set (l.get s) (l.set a s) = s := by
  rw [l.set_set,l.set_get]

/-- Writes of the two parts commute. -/
def Apart (l : Lens σ α) (m : Lens σ β) : Prop :=
  ∀ a b s, l.set a (m.set b s) = m.set b (l.set a s)

theorem Apart.get_set (h : l.Apart m) (b : β) (s : σ) : l.get (m.set b s) = l.get s := by
  have hset := h (l.get s) b s
  rw [l.set_get] at hset
  exact set_eq_self_iff.mp hset

theorem Apart.symm (h : l.Apart m) : m.Apart l := fun b a s => (h a b s).symm

def index {n : Nat} (i : Fin n) : Lens (Vector α n) α where
  get v := v.get i
  set a v := v.set i a i.isLt
  get_set a v := Vector.getElem_set_self i.isLt
  set_get v := by
    simp [Vector.get_eq_getElem]
  set_set a b v := by
    simp [Vector.set_set]

theorem index_apart {n : Nat} {i j : Fin n} (h : i ≠ j) :
    (index i : Lens (Vector α n) α).Apart (index j : Lens (Vector α n) α) := by
  intro a b v
  change (v.set j b j.isLt).set i a i.isLt = (v.set i a i.isLt).set j b j.isLt
  exact Vector.set_comm b a fun hij => h (Fin.ext hij.symm)

end Lens

section Bits

variable {w : Nat}

/-- Write a bit with the mask `1 << i` or `~(1 << i)`. -/
def writeBit (i : Fin w) (v : Bool) (b : BitVec w) : BitVec w :=
  if v then b ||| 1#w <<< i.val else b &&& ~~~(1#w <<< i.val)

theorem getLsbD_writeBit (i : Fin w) (v : Bool) (b : BitVec w) {j : Nat} (hj : j < w) :
    (writeBit i v b).getLsbD j = if i.val = j then v else b.getLsbD j := by
  rw [writeBit,← BitVec.twoPow_eq]
  cases v
  · simp only [Bool.false_eq_true,if_false,BitVec.getLsbD_and,BitVec.getLsbD_not,
      BitVec.getLsbD_twoPow,i.isLt,hj]
    by_cases hij : i.val = j <;> simp [hij]
  · simp only [if_true,BitVec.getLsbD_or,BitVec.getLsbD_twoPow,i.isLt]
    by_cases hij : i.val = j <;> simp [hij]

namespace Lens

def bit (i : Fin w) : Lens (BitVec w) Bool where
  get b := b.getLsbD i
  set := writeBit i
  get_set v b := by
    rw [getLsbD_writeBit i v b i.isLt,if_pos rfl]
  set_get b := by
    refine BitVec.eq_of_getLsbD_eq fun j hj => ?_
    rw [getLsbD_writeBit i _ b hj]
    split_ifs with hij
    · rw [hij]
    · rfl
  set_set v v' b := by
    refine BitVec.eq_of_getLsbD_eq fun j hj => ?_
    rw [getLsbD_writeBit i _ _ hj,getLsbD_writeBit i _ _ hj,getLsbD_writeBit i _ _ hj]
    split_ifs
    · rfl
    · rfl

theorem bit_apart {i j : Fin w} (h : i ≠ j) : (bit i).Apart (bit j) := by
  intro v v' b
  refine BitVec.eq_of_getLsbD_eq fun k hk => ?_
  dsimp only [bit]
  rw [getLsbD_writeBit i _ _ hk,getLsbD_writeBit j _ _ hk,getLsbD_writeBit j _ _ hk,
    getLsbD_writeBit i _ _ hk]
  split_ifs with hi hj
  · exact absurd (Fin.ext (hi.trans hj.symm)) h
  · rfl
  · rfl
  · rfl

/-- The shift and mask with which C reads a bit. -/
theorem shiftRight_and_one (i : Fin w) (b : BitVec w) :
    (b >>> i.val) &&& 1#w = if (bit i).get b then 1#w else 0#w := by
  rw [BitVec.and_one_eq_setWidth_ofBool_getLsbD,BitVec.getLsbD_ushiftRight,Nat.add_zero]
  change (BitVec.ofBool ((bit i).get b)).setWidth w = _
  cases (bit i).get b
  · exact BitVec.setWidth_zero w 1
  · exact BitVec.setWidth_ofNat_one_eq_ofNat_one_of_lt (Nat.zero_lt_succ 0)

end Lens
end Bits
end CheriOsTest.Lenses
