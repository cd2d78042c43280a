import CheriOsTest.CStrings
import CheriOsTest.Programs
set_option autoImplicit false

/-! The names of shared memory objects: what `gen_shm_obj_name` leaves in its buffer, and
what of it a reader of the C string sees. -/

namespace CheriOsTest.ShmNames
open CheriOsTest.CStrings CheriOsTest.Programs

def charset : CString := cstr "abcdefghijklmnopqrstuvwxyz0123456789"

def shmPrefix : CString := cstr "/cheriostest_shm-"

def sizeofCharset (purecap : Bool) : Nat := if purecap then 16 else 8

def strcpy (buf : List UInt8) (s : CString) : List UInt8 := s ++ [0] ++ buf.drop (s.length+1)

def randomChar (purecap : Bool) (r : Nat) : UInt8 := charset.getD (r%(sizeofCharset purecap-1)) 0

/-- Calls number `rands` and up of `random()` decide on the characters. -/
def genShmObjName (purecap : Bool) (random : Nat → Nat) (rands len : Nat) :
    Except CString (List UInt8) := do
  failIf (¬ len ≥ 32) (cstr "Buffer for shm object name too small")
  let buf := strcpy (List.replicate len 0) shmPrefix
  let buf := (List.range' 18 (len-1-18)).foldl
    (fun buf i => buf.set i (randomChar purecap (random (rands+(i-18))))) buf
  pure (buf.set (len-1) 0)

/-- The name as it is meant: it fills the buffer with characters of the set. -/
structure ProperName (len : Nat) (name : CString) : Prop where
  length : name.length = len-1
  shape : ∃ s, name = shmPrefix ++ s ∧ ∀ c ∈ s, c ∈ charset

theorem foldl_set_take (f : Nat → UInt8) (n : Nat) (is : List Nat) (his : ∀ i ∈ is, n ≤ i)
    (buf : List UInt8) : (is.foldl (fun buf i => buf.set i (f i)) buf).take n = buf.take n := by
  induction is generalizing buf with
  | nil => rfl
  | cons i is ih =>
    rw [List.foldl_cons,ih (fun j hj => his j (List.mem_cons_of_mem i hj)),
      List.take_set_of_le (his i List.mem_cons_self)]

theorem foldl_set_mem (f : Nat → UInt8) (is : List Nat) {buf : List UInt8} {b : UInt8}
    (h : b ∈ is.foldl (fun buf i => buf.set i (f i)) buf) : b ∈ buf ∨ ∃ i ∈ is, b = f i := by
  induction is generalizing buf with
  | nil => exact .inl h
  | cons i is ih =>
    rw [List.foldl_cons] at h
    rcases ih h with h | ⟨j,hj,hb⟩
    · rcases List.mem_or_eq_of_mem_set h with h | h
      · exact .inl h
      · exact .inr ⟨i,List.mem_cons_self,h⟩
    · exact .inr ⟨j,List.mem_cons_of_mem i hj,hb⟩

section Names

variable {purecap : Bool} {random : Nat → Nat} {rands len : Nat} {buf : List UInt8}

theorem genShmObjName_eq (h : 32 ≤ len) : genShmObjName purecap random rands len =
    .ok (((List.range' 18 (len-1-18)).foldl
      (fun buf i => buf.set i (randomChar purecap (random (rands+(i-18)))))
      (strcpy (List.replicate len 0) shmPrefix)).set (len-1) 0) := by
  rw [genShmObjName,failIf,if_neg (by omega)]
  rfl

theorem genShmObjName_take (h : 32 ≤ len) (hbuf : genShmObjName purecap random rands len = .ok buf) :
    buf.take 18 = shmPrefix ++ [0] := by
  rw [genShmObjName_eq h] at hbuf
  cases hbuf
  rw [List.take_set_of_le (by omega),
    foldl_set_take (fun i => randomChar purecap (random (rands+(i-18)))) 18 _
      (fun i hi => (List.mem_range'_1.mp hi).1)]
  have hlen : (shmPrefix ++ [0]).length = 18 := by decide
  rw [strcpy,List.take_append_of_le_length (Nat.le_of_eq hlen.symm),
    List.take_of_length_le (Nat.le_of_eq hlen)]

theorem genShmObjName_name (h : 32 ≤ len) (hbuf : genShmObjName purecap random rands len = .ok buf) :
    upToNul buf = shmPrefix := by
  have hsplit := List.take_append_drop 18 buf
  rw [genShmObjName_take h hbuf,List.append_assoc] at hsplit
  rw [← hsplit,upToNul_append (by decide +kernel)]
  simp [upToNul]

/-- The size of a pointer leaves out most of the set, in the rest of the buffer too. -/
theorem randomChar_mem (purecap : Bool) (r : Nat) : randomChar purecap r ∈ charset.take 15 := by
  have hmod : r%(sizeofCharset purecap-1) < 15 := by
    cases purecap
    · exact (Nat.mod_lt r (show 0 < 7 by decide)).trans (by decide)
    · exact Nat.mod_lt r (by decide)
  rw [randomChar]
  generalize r%(sizeofCharset purecap-1) = i at hmod
  revert i
  decide

theorem genShmObjName_mem (h : 32 ≤ len) (hbuf : genShmObjName purecap random rands len = .ok buf) :
    ∀ b ∈ buf, b = 0 ∨ b ∈ shmPrefix ∨ b ∈ charset.take 15 := by
  intro b hb
  rw [genShmObjName_eq h] at hbuf
  cases hbuf
  rcases List.mem_or_eq_of_mem_set hb with hb | hb
  · rcases foldl_set_mem (fun i => randomChar purecap (random (rands+(i-18)))) _ hb with hb | ⟨i,-,rfl⟩
    · rw [strcpy,List.mem_append,List.mem_append,List.mem_singleton] at hb
      rcases hb with (hb | hb) | hb
      · exact .inr (.inl hb)
      · exact .inl hb
      · exact .inl (List.eq_of_mem_replicate (List.mem_of_mem_drop hb))
    · exact .inr (.inr (randomChar_mem purecap _))
  · exact .inl hb

end Names

theorem exists_name (purecap : Bool) (random : Nat → Nat) (rands : Nat) {len : Nat} (h : 32 ≤ len) :
    ∃ buf, genShmObjName purecap random rands len = .ok buf ∧ upToNul buf = shmPrefix :=
  ⟨_,genShmObjName_eq h,genShmObjName_name h (genShmObjName_eq h)⟩

theorem shmPrefix_not_proper {len : Nat} (h : 32 ≤ len) : ¬ ProperName len shmPrefix := by
  intro hproper
  have hlen := hproper.length
  rw [show shmPrefix.length = 17 by decide] at hlen
  omega

/-- Every buffer holds the same name, the prefix alone, whatever `random()` gives: it is no
proper name, it has no character after the prefix, and most of the set is nowhere in the buffer. -/
theorem shm_name_never (purecap : Bool) (random : Nat → Nat) (rands len : Nat) (h : 32 ≤ len) :
    ∃ buf, genShmObjName purecap random rands len = .ok buf ∧ ¬ ProperName len (upToNul buf) ∧
      (∀ i c, shmPrefix.length ≤ i → (upToNul buf)[i]? ≠ some c) ∧
      (∀ c ∈ buf, c ∉ charset.drop 20) ∧
      ∀ random' rands' buf', genShmObjName purecap random' rands' len = .ok buf' →
        upToNul buf' = upToNul buf := by
  obtain ⟨buf,hbuf,hname⟩ := exists_name purecap random rands h
  refine ⟨buf,hbuf,?_,fun i c hi => ?_,fun c hc => ?_,fun random' rands' buf' h' => ?_⟩
  · rw [hname]
    exact shmPrefix_not_proper h
  · rw [hname,List.getElem?_eq_none hi]
    exact Option.some_ne_none c ∘ Eq.symm
  · have hset : ∀ c ∈ [0] ++ shmPrefix ++ charset.take 15, c ∉ charset.drop 20 := by decide +kernel
    refine hset c ?_
    rcases genShmObjName_mem h hbuf c hc with rfl | hc | hc <;> simp [*]
  · rw [hname,genShmObjName_name h h']

theorem shm_name_never_small : ∃ buf, genShmObjName true (fun _ => 7) 0 32 = .ok buf ∧
    ¬ ProperName 32 (upToNul buf) := by
  obtain ⟨buf,hbuf,hno,-⟩ := shm_name_never true (fun _ => 7) 0 32 (by decide)
  exact ⟨buf,hbuf,hno⟩

theorem shm_name_prefix_only : ∃ buf buf',
    genShmObjName true (fun _ => 0) 0 32 = .ok buf ∧ genShmObjName true (fun _ => 1) 0 32 = .ok buf' ∧
      randomChar true 0 ≠ randomChar true 1 ∧ upToNul buf = shmPrefix ∧ upToNul buf' = shmPrefix ∧
      ¬ ProperName 32 shmPrefix := by
  obtain ⟨buf,hbuf,hname⟩ := exists_name true (fun _ => 0) 0 (Nat.le_refl 32)
  obtain ⟨buf',hbuf',hname'⟩ := exists_name true (fun _ => 1) 0 (Nat.le_refl 32)
  exact ⟨buf,buf',hbuf,hbuf',by decide,hname,hname',shmPrefix_not_proper (Nat.le_refl 32)⟩

end CheriOsTest.ShmNames
