import Mathlib
set_option autoImplicit false

/-! Capabilities in memory. A capability is a tagged pointer with bounds. Memory
holds one capability in each granule of 16 bytes, and a revocation pass untags
those that point at a marked granule. -/

namespace CheriOsTest.Capabilities

@[ext] structure Capability where
  tag : Bool
  base : Nat
  length : Nat
  address : Nat
  otype : Int
  perms : UInt64
  deriving DecidableEq, Repr

namespace Capability

def offset (c : Capability) (n : Nat) : Capability := { c with address := c.address+n }

/-- The capability gives access to `n` bytes at its address. -/
def Reaches (c : Capability) (n : Nat) : Prop :=
  c.tag = true ∧ c.otype = -1 ∧ c.base ≤ c.address ∧ c.address+n ≤ c.base+c.length

instance (c : Capability) (n : Nat) : Decidable (c.Reaches n) :=
  inferInstanceAs (Decidable (_ ∧ _ ∧ _ ∧ _))

/-- Exactly `n` bytes from the address on. Bounds never grow, and a sealed
capability cannot be narrowed: both leave an untagged result. -/
def boundsSet (c : Capability) (n : Nat) : Capability :=
  { c with tag := decide (c.Reaches n), base := c.address, length := n }

/-- The permissions that `mask` has as well; a sealed capability loses its tag. -/
def permsAnd (c : Capability) (mask : UInt64) : Capability :=
  { c with tag := c.tag && c.otype == -1, perms := c.perms &&& mask }

def untagged (c : Capability) : Capability := { c with tag := false }

def target (c : Capability) : Nat := c.base/16

/-- The granules of the object that a capability is bounded to. -/
def Covers (c : Capability) (g : Nat) : Prop := c.base/16 ≤ g ∧ g < (c.base+c.length)/16

instance (c : Capability) (g : Nat) : Decidable (c.Covers g) :=
  inferInstanceAs (Decidable (_ ∧ _))

/-- What a revocation pass leaves of a capability: one with none of the
permissions `spared` is untagged when its target is marked. -/
def swept (spared : UInt64) (shadow : Nat → Bool) (c : Capability) : Capability :=
  if c.perms &&& spared = 0 ∧ shadow c.target then c.untagged else c

variable {c : Capability} {n k : Nat} {spared : UInt64} {shadow : Nat → Bool}

theorem swept_of_spared (h : c.perms &&& spared ≠ 0) : c.swept spared shadow = c := by
  rw [swept,if_neg (fun hc => h hc.1)]

theorem swept_of_unmarked (h : shadow c.target = false) : c.swept spared shadow = c := by
  rw [swept,if_neg (by simp [h])]

theorem swept_of_marked (h : c.perms &&& spared = 0) (hs : shadow c.target = true) :
    c.swept spared shadow = c.untagged := by
  rw [swept,if_pos ⟨h,hs⟩]

theorem swept_swept (s t : Nat → Bool) :
    (c.swept spared s).swept spared t = c.swept spared (fun g => s g || t g) := by
  by_cases hp : c.perms &&& spared = 0
  · by_cases hs : s c.target
    · have h₁ : c.swept spared s = c.untagged := swept_of_marked hp hs
      rw [h₁,swept_of_marked hp (by simp [hs]),swept]
      split_ifs <;> rfl
    · have h₁ : c.swept spared s = c := swept_of_unmarked (by simpa using hs)
      rw [h₁]
      simp [swept,hs]
  · rw [swept_of_spared hp,swept_of_spared hp,swept_of_spared hp]

theorem permsAnd_not (p v : UInt64) : (p &&& ~~~v) &&& v = 0 := by
  apply UInt64.toBitVec_inj.mp
  apply BitVec.eq_of_getLsbD_eq
  intro i hi
  simp [hi]

end Capability

abbrev Memory := Nat → Capability

def losses (g : Nat) : List Memory → Nat
  | after :: before :: past =>
    (if (before g).tag && !(after g).tag then 1 else 0)+losses g (before :: past)
  | _ => 0

theorem losses_kept {g : Nat} {after before : Memory} {past : List Memory}
    (h : (before g).tag = true → (after g).tag = true) :
    losses g (after :: before :: past) = losses g (before :: past) := by
  rw [losses]
  cases hb : (before g).tag with
  | false => simp
  | true => simp [h hb]

theorem losses_lost {g : Nat} {after before : Memory} {past : List Memory}
    (hb : (before g).tag = true) (ha : (after g).tag = false) :
    losses g (after :: before :: past) = losses g (before :: past)+1 := by
  rw [losses,hb,ha]
  simp [Nat.add_comm]

end CheriOsTest.Capabilities
