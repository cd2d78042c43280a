import CheriOsTest.CStrings
import CheriOsTest.Programs
set_option autoImplicit false

/-! The huge page sizes of a Linux system, read from the names in a directory into an array
of a fixed size. -/

namespace CheriOsTest.HugePages
open CheriOsTest.CStrings CheriOsTest.Programs

def isSpace (b : UInt8) : Bool := b == 32 || (9 ≤ b && b ≤ 13)

def isDigit (b : UInt8) : Bool := 48 ≤ b && b ≤ 57

/-- The conversion `%lu` at the start of a string: white space, a sign, and digits. A number
that is too large becomes the largest one, and a minus sign negates in 64 bits. -/
def scanLu (s : CString) : Option UInt64 :=
  let s := s.dropWhile isSpace
  let minus := s.head? == some 45
  let s := if minus || s.head? == some 43 then s.tail else s
  let digits := s.takeWhile isDigit
  let n := digits.foldl (fun n b => 10*n+(b.toNat-48)) 0
  if digits = [] then none
  else if 2^64 ≤ n then some (UInt64.ofNat (2^64-1))
  else some (if minus then -UInt64.ofNat n else UInt64.ofNat n)

/-- `sscanf(de->d_name, "hugepages-%lukB", &kb)`, when it returns 1. What follows the number
cannot undo its conversion. -/
def scanHugepages (name : CString) : Option UInt64 :=
  if cstr "hugepages-" <+: name then scanLu (name.drop (cstr "hugepages-").length) else none

/-- The number of elements that `malloc` gives. -/
def maxSize : Nat := 512

/-- `count`, and the stores into the array as they were made. -/
structure PageSizes where
  count : Nat
  stores : List (Nat × UInt64)

def tooMany : CString := cstr "Maximum number of hugepage sizes exceeded."

/-- One entry of the directory. A failure keeps the stores made before it. -/
def storeEntry (s : PageSizes) (name : CString) : Except (CString × PageSizes) PageSizes :=
  match scanHugepages name with
  | none => .ok s
  | some kb => do
    failIf (¬ s.count ≤ maxSize) (tooMany,s)
    pure ⟨s.count+1,s.stores ++ [(s.count,kb*1024)]⟩

def getPagesizes (names : List CString) : Except (CString × PageSizes) PageSizes :=
  names.foldlM storeEntry ⟨0,[]⟩

def storesOf : Except (CString × PageSizes) PageSizes → List (Nat × UInt64)
  | .ok s => s.stores
  | .error (_,s) => s.stores

/-- The stores of the given sizes at `count` and up. -/
def stored (count : Nat) : List UInt64 → List (Nat × UInt64)
  | [] => []
  | kb :: kbs => (count,kb*1024) :: stored (count+1) kbs

theorem mem_stored {count i : Nat} {v : UInt64} {kbs : List UInt64} (h : (i,v) ∈ stored count kbs) :
    count ≤ i ∧ i < count+kbs.length := by
  induction kbs generalizing count with
  | nil => exact absurd h List.not_mem_nil
  | cons kb kbs ih =>
    rw [List.length_cons]
    rcases List.mem_cons.mp h with h | h
    · cases h
      omega
    · have hi := ih h
      omega

theorem stored_mem (count : Nat) {k : Nat} {kbs : List UInt64} (hk : k < kbs.length) :
    ∃ v, (count+k,v) ∈ stored count kbs := by
  induction kbs generalizing count k with
  | nil => exact absurd hk (Nat.not_lt_zero k)
  | cons kb kbs ih =>
    cases k with
    | zero => exact ⟨_,List.mem_cons_self⟩
    | succ k =>
      obtain ⟨v,hv⟩ := ih (count+1) (Nat.lt_of_succ_lt_succ hk)
      rw [Nat.add_right_comm] at hv
      exact ⟨v,List.mem_cons_of_mem _ hv⟩

section Entries

variable {kbs : List UInt64} {s : PageSizes}

def storeSize (s : PageSizes) (kb : UInt64) : Except (CString × PageSizes) PageSizes := do
  failIf (¬ s.count ≤ maxSize) (tooMany,s)
  pure ⟨s.count+1,s.stores ++ [(s.count,kb*1024)]⟩

/-- Entries that do not match leave the loop as it is. -/
theorem getPagesizes_eq (names : List CString) :
    getPagesizes names = (names.filterMap scanHugepages).foldlM storeSize ⟨0,[]⟩ := by
  have hloop : ∀ s : PageSizes, names.foldlM storeEntry s =
      (names.filterMap scanHugepages).foldlM storeSize s := by
    induction names with
    | nil => exact fun s => rfl
    | cons name names ih =>
      intro s
      cases hscan : scanHugepages name with
      | none =>
        rw [List.filterMap_cons_none hscan,List.foldlM_cons,storeEntry,hscan]
        exact ih s
      | some kb =>
        rw [List.filterMap_cons_some hscan,List.foldlM_cons,List.foldlM_cons,storeEntry,hscan]
        exact congrArg (storeSize s kb >>= ·) (funext ih)
  exact hloop ⟨0,[]⟩

theorem storeSize_room {kb : UInt64} (hroom : s.count ≤ maxSize) :
    storeSize s kb = .ok ⟨s.count+1,s.stores ++ [(s.count,kb*1024)]⟩ := by
  rw [storeSize,failIf,if_neg (not_not.mpr hroom)]
  rfl

theorem storeSize_full {kb : UInt64} (hfull : maxSize < s.count) :
    storeSize s kb = .error (tooMany,s) := by
  rw [storeSize,failIf,if_pos (Nat.not_le_of_lt hfull)]
  rfl

/-- One entry more than there are elements is stored. -/
theorem sizes_fit (h : s.count+kbs.length ≤ maxSize+1) : kbs.foldlM storeSize s =
    .ok ⟨s.count+kbs.length,s.stores ++ stored s.count kbs⟩ := by
  induction kbs generalizing s with
  | nil =>
    rw [stored,List.append_nil]
    rfl
  | cons kb kbs ih =>
    rw [List.length_cons] at h ⊢
    rw [List.foldlM_cons,storeSize_room (by omega)]
    refine (ih (by dsimp only; omega)).trans ?_
    rw [stored,List.append_assoc,List.singleton_append,Nat.add_right_comm,Nat.add_assoc]

theorem sizes_exceed (hs : s.count ≤ maxSize+1) (h : maxSize+1 < s.count+kbs.length) :
    kbs.foldlM storeSize s = .error (tooMany,⟨maxSize+1,
      s.stores ++ stored s.count (kbs.take (maxSize+1-s.count))⟩) := by
  induction kbs generalizing s with
  | nil => exact absurd hs (Nat.not_le_of_lt h)
  | cons kb kbs ih =>
    rw [List.length_cons] at h
    rw [List.foldlM_cons]
    rcases Nat.lt_or_eq_of_le hs with hlt | heq
    · rw [storeSize_room (Nat.le_of_lt_succ hlt)]
      refine (ih (s := ⟨s.count+1,s.stores ++ [(s.count,kb*1024)]⟩) hlt (by dsimp only; omega)).trans ?_
      have hleft : maxSize+1-s.count = maxSize+1-(s.count+1)+1 := by omega
      rw [hleft,List.take_succ_cons,stored,List.append_assoc,List.singleton_append]
    · rw [storeSize_full (by omega),heq,Nat.sub_self,List.take_zero,stored,List.append_nil,← heq]
      rfl

end Entries

/-- The loop as it is meant: it stores to elements of the array only, and reports entries
for which there is none. -/
structure Safe (names : List CString) : Prop where
  inBounds : ∀ i v, (i,v) ∈ storesOf (getPagesizes names) → i < maxSize
  reported : maxSize < (names.filterMap scanHugepages).length →
    ∃ s, getPagesizes names = .error (tooMany,s)

theorem store_past_end {names : List CString}
    (h : maxSize < (names.filterMap scanHugepages).length) :
    ∃ v, (maxSize,v) ∈ storesOf (getPagesizes names) := by
  by_cases hfit : 0+(names.filterMap scanHugepages).length ≤ maxSize+1
  · obtain ⟨v,hv⟩ := stored_mem 0 h
    refine ⟨v,?_⟩
    rw [getPagesizes_eq,sizes_fit hfit,storesOf]
    simpa using hv
  · have hlen : maxSize < ((names.filterMap scanHugepages).take (maxSize+1)).length := by
      rw [List.length_take]
      omega
    obtain ⟨v,hv⟩ := stored_mem 0 hlen
    refine ⟨v,?_⟩
    rw [getPagesizes_eq,sizes_exceed (Nat.zero_le _) (Nat.lt_of_not_le hfit),storesOf]
    simpa using hv

theorem getPagesizes_of_fit {names : List CString}
    (h : (names.filterMap scanHugepages).length ≤ maxSize+1) :
    ∃ s, getPagesizes names = .ok s ∧ s.count = (names.filterMap scanHugepages).length := by
  rw [getPagesizes_eq]
  refine ⟨_,sizes_fit ?_,Nat.zero_add _⟩
  rw [Nat.zero_add]
  exact h

/-- The loop is safe exactly when no more entries match than the array has elements: with
one more, a size is stored behind the last element. -/
theorem pagesizes_safe_iff (names : List CString) :
    Safe names ↔ (names.filterMap scanHugepages).length ≤ maxSize := by
  constructor
  · intro hsafe
    by_contra hmany
    obtain ⟨v,hv⟩ := store_past_end (Nat.lt_of_not_le hmany)
    exact absurd (hsafe.inBounds maxSize v hv) (Nat.lt_irrefl maxSize)
  · intro hfew
    refine ⟨fun i v hmem => ?_,fun hmany => absurd hfew (Nat.not_le_of_lt hmany)⟩
    rw [getPagesizes_eq,sizes_fit (by dsimp only; omega),storesOf] at hmem
    have hi := mem_stored hmem
    dsimp only at hi
    omega

/-- Names of 513 different sizes. -/
def manyNames : List CString :=
  (List.range 513).map fun i : Nat => cstr "hugepages-" ++ fmtD i ++ cstr "kB"

theorem scanLu_isSome {b : UInt8} {rest : CString} (hb : isDigit b = true) :
    (scanLu (b :: rest)).isSome = true := by
  have hother : ∀ b : UInt8, isDigit b = true → isSpace b = false ∧ b ≠ 45 ∧ b ≠ 43 := by
    decide +kernel
  obtain ⟨hspace,hminus,hplus⟩ := hother b hb
  simp only [scanLu,List.dropWhile_cons,hspace]
  simp [hminus,hplus,hb]
  split_ifs <;> rfl

theorem fmtD_head (n : Nat) : ∃ b rest, fmtD n = b :: rest ∧ isDigit b = true := by
  have hdigits : fmtD n = (Nat.toDigits 10 n).map fun c => UInt8.ofNat c.toNat := by
    rw [fmtD,cstr,Int.toString_eq_repr]
    simp [Int.repr]
  obtain ⟨c,cs,hc⟩ := List.exists_cons_of_ne_nil (Nat.toDigits_ne_nil (n := n) (b := 10))
  have hdigit : c.isDigit = true :=
    Nat.isDigit_of_mem_toDigits (n := n) (by decide) (Nat.le_refl 10) (hc ▸ List.mem_cons_self)
  have hrange : 48 ≤ c.val ∧ c.val ≤ 57 := by
    simpa [Char.isDigit] using hdigit
  have hbyte : ∀ i < 58, 48 ≤ i → isDigit (UInt8.ofNat i) = true := by decide
  have hlow : 48 ≤ c.toNat := UInt32.le_iff_toNat_le.mp hrange.1
  have hhigh : c.toNat ≤ 57 := UInt32.le_iff_toNat_le.mp hrange.2
  exact ⟨_,_,by rw [hdigits,hc,List.map_cons],hbyte c.toNat (Nat.lt_succ_of_le hhigh) hlow⟩

theorem scanHugepages_isSome (n : Nat) :
    (scanHugepages (cstr "hugepages-" ++ fmtD n ++ cstr "kB")).isSome = true := by
  obtain ⟨b,rest,hdigits,hb⟩ := fmtD_head n
  rw [scanHugepages,List.append_assoc,if_pos (List.prefix_append _ _),List.drop_left,hdigits]
  exact scanLu_isSome hb

theorem store_at_512 : (manyNames.filterMap scanHugepages).length = 513 ∧ ¬ Safe manyNames ∧
    ∃ s, getPagesizes manyNames = .ok s ∧ s.count = 513 := by
  have hall : (manyNames.filterMap scanHugepages).length = manyNames.length := by
    rw [List.filterMap_length_eq_length,manyNames,List.forall_mem_map]
    exact fun n _ => scanHugepages_isSome n
  have hlen : (manyNames.filterMap scanHugepages).length = 513 := by
    rw [hall,manyNames,List.length_map,List.length_range]
  have hpast : maxSize < (manyNames.filterMap scanHugepages).length := by
    rw [hlen]
    decide
  refine ⟨hlen,fun hsafe => ?_,?_⟩
  · obtain ⟨v,hv⟩ := store_past_end hpast
    exact absurd (hsafe.inBounds maxSize v hv) (Nat.lt_irrefl maxSize)
  · obtain ⟨s,hs,hcount⟩ := getPagesizes_of_fit (Nat.le_of_eq hlen)
    exact ⟨s,hs,hcount.trans hlen⟩

end CheriOsTest.HugePages
