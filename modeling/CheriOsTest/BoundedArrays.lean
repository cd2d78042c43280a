import CheriOsTest.Programs
set_option autoImplicit false

/-! Arrays of a fixed size that are filled from the front. A store past the end is
an error of the program that makes it. -/

namespace CheriOsTest.BoundedArrays
open CheriOsTest.Programs

variable {α ε : Type}

/-- The slots of an array, and the index that the next store goes to. -/
structure Cursor (α : Type) where
  slots : List α
  next : Nat

def Cursor.fresh (size : Nat) (a : α) : Cursor α := ⟨List.replicate size a,0⟩

/-- `slots[next++] = a`, or `e` when there is no such slot. -/
def Cursor.push (e : ε) (c : Cursor α) (a : α) : Except ε (Cursor α) :=
  if c.next < c.slots.length then .ok ⟨c.slots.set c.next a,c.next+1⟩ else .error e

/-- The stores of `as` fit exactly when their number does, and they then hold `as`. -/
theorem pushes_eq (e : ε) (as : List α) (c : Cursor α) (h : c.next ≤ c.slots.length) :
    as.foldlM (Cursor.push e) c =
      if c.next+as.length ≤ c.slots.length then
        .ok ⟨c.slots.take c.next ++ as ++ c.slots.drop (c.next+as.length),c.next+as.length⟩
      else .error e := by
  induction as generalizing c with
  | nil => simp [h]; rfl
  | cons a as ih =>
    rw [List.foldlM_cons,Cursor.push]
    by_cases hn : c.next < c.slots.length
    · rw [if_pos hn]
      change as.foldlM (Cursor.push e) ⟨c.slots.set c.next a,c.next+1⟩ = _
      rw [ih _ (by simpa using hn)]
      simp only [List.length_set,List.length_cons]
      have hl : c.next+1+as.length = c.next+(as.length+1) := by omega
      by_cases hf : c.next+(as.length+1) ≤ c.slots.length
      · rw [hl,if_pos hf,if_pos hf]
        congr 2
        rw [List.take_succ_eq_append_getElem (by simpa using hn),List.getElem_set_self,
          List.take_set_of_le (Nat.le_refl _),List.drop_set_of_lt (by omega)]
        simp
      · rw [hl,if_neg hf,if_neg hf]
    · rw [if_neg hn,if_neg (by simp only [List.length_cons]; omega)]
      rfl

theorem pushes_fresh (e : ε) (size : Nat) (a : α) (as : List α) :
    as.foldlM (Cursor.push e) (Cursor.fresh size a) =
      if as.length ≤ size then .ok ⟨as ++ List.replicate (size-as.length) a,as.length⟩
      else .error e := by
  rw [pushes_eq e as _ (Nat.zero_le _)]
  simp [Cursor.fresh]

theorem pushes_start (e : ε) {as slots : List α} (h : as.length ≤ slots.length) :
    as.foldlM (Cursor.push e) ⟨slots,0⟩ = .ok ⟨as ++ slots.drop as.length,as.length⟩ := by
  rw [pushes_eq e as _ (Nat.zero_le _)]
  simp [h]

def read (e : ε) (as : List α) (i : Nat) : Except ε α :=
  match as[i]? with
  | some a => .ok a
  | none => .error e

theorem reads_eq (e : ε) {as : List α} {n : Nat} (h : n ≤ as.length) :
    (List.range n).mapM (read e as) = .ok (as.take n) := by
  induction n with
  | zero => rfl
  | succ n ih =>
    have hn : read e as n = .ok as[n] := by rw [read,List.getElem?_eq_getElem h]
    rw [List.range_succ,List.mapM_append,ih (Nat.le_of_succ_le h),List.mapM_cons,hn,
      List.take_succ_eq_append_getElem h]
    rfl

end CheriOsTest.BoundedArrays
