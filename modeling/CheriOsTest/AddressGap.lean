import CheriOsTest.Align
import CheriOsTest.CStrings
import CheriOsTest.Neighbours
set_option autoImplicit false

/-! `find_address_space_gap`, from the point where the memory map has been read.
FreeBSD scans an array of the map upwards; Linux builds a list of it by insertion
at the head and scans that. The number of mappings is not bounded here. -/

namespace CheriOsTest.AddressGap
open CheriOsTest.Align CheriOsTest.CStrings CheriOsTest.Search

/-- `kve_start` and `kve_end` on FreeBSD, `start` and `end` on Linux. -/
structure Mapping where
  start : UInt64
  stop : UInt64
  deriving DecidableEq, Repr

/-- The two operations of the capability format that the search uses. -/
structure Cheri where
  representableLength : UInt64 → UInt64
  representableAlignmentMask : UInt64 → UInt64

/-- `CHERITEST_CHERI_REPRESENTABLE_ALIGNMENT`. -/
def representableAlignment (c : Cheri) (len : UInt64) : UInt64 :=
  ~~~(c.representableAlignmentMask len)+1

/-- `__builtin_align_up`. -/
def alignUp (x align : UInt64) : UInt64 := (x+(align-1)) &&& ~~~(align-1)

def effective (c : Cheri) (len align : UInt64) : UInt64 × UInt64 :=
  if align = 0 then
    -- the alignment is that of the length already rounded
    (c.representableLength len,representableAlignment c (c.representableLength len))
  else (len,align)

def noFreeRegion (len : UInt64) : CString :=
  cstr "no free region of length " ++ fmtX len.toNat ++ cstr "\n"

/-- The loop of the FreeBSD version from index `i` on. -/
def kivpLoop (kivp : List Mapping) (len align : UInt64) (i : Nat) : UInt64 :=
  if h : i < kivp.length then
    let alignedStart := alignUp kivp[i-1].stop align
    let stop := kivp[i].start
    if alignedStart > stop then kivpLoop kivp len align (i+1)
    else if stop-alignedStart ≥ len then alignedStart
    else kivpLoop kivp len align (i+1)
  else 0
termination_by kivp.length-i

def findAddressSpaceGapFreeBSD (c : Cheri) (kivp : List Mapping) (len align : UInt64) :
    Except CString UInt64 :=
  let (len,align) := effective c len align
  let addr := kivpLoop kivp len align 1
  if addr = 0 then .error (noFreeRegion len) else .ok addr

/-- `LIST_INSERT_HEAD` for each line of `/proc/self/maps`. -/
def insertHead (maps : List Mapping) : List Mapping :=
  maps.foldl (fun lh vma => vma :: lh) []

/-- The loop of the Linux version with `n` rounds to go at `it`. A list of
`vmcnt` entries has a next entry in each of the `vmcnt - 1` rounds. -/
def vmaLoop (len align : UInt64) : Nat → List Mapping → UInt64
  | n+1,it :: next :: rest =>
    let stop := it.start
    let alignedStart := alignUp next.stop align
    if alignedStart > stop then vmaLoop len align n (next :: rest)
    else if stop-alignedStart ≥ len then alignedStart
    else vmaLoop len align n (next :: rest)
  | _,_ => 0

def findAddressSpaceGapLinux (c : Cheri) (maps : List Mapping) (len align : UInt64) :
    Except CString UInt64 :=
  let lh := insertHead maps
  let vmcnt := maps.length
  let (len,align) := effective c len align
  let addr := vmaLoop len align (vmcnt-1) lh
  if addr = 0 then .error (noFreeRegion len) else .ok addr

def gapAt (len align : UInt64) (a b : Mapping) : Option UInt64 :=
  if alignUp a.stop align > b.start then none
  else if b.start-alignUp a.stop align ≥ len then some (alignUp a.stop align)
  else none

theorem kivpLoop_eq (kivp : List Mapping) (len align : UInt64) (i : Nat) :
    kivpLoop kivp len align (i+1) =
      (firstNeighbours (gapAt len align) (kivp.drop i)).getD 0 := by
  induction hn : kivp.length-i generalizing i with
  | zero =>
    rw [kivpLoop,dif_neg (by omega),List.drop_eq_nil_of_le (by omega)]
    rfl
  | succ n ih =>
    have hi : i < kivp.length := by omega
    by_cases h : i+1 < kivp.length
    · have hd : kivp.drop i = kivp[i] :: kivp[i+1] :: kivp.drop (i+2) := by
        rw [List.drop_eq_getElem_cons hi,List.drop_eq_getElem_cons h]
      have hd' : kivp.drop (i+1) = kivp[i+1] :: kivp.drop (i+2) := List.drop_eq_getElem_cons h
      rw [kivpLoop,dif_pos h,hd,firstNeighbours,gapAt,ih (i+1) (by omega),hd']
      simp only [Nat.add_sub_cancel]
      split_ifs <;> rfl
    · rw [kivpLoop,dif_neg h,List.drop_eq_getElem_cons hi,List.drop_eq_nil_of_le (by omega)]
      rfl

theorem vmaLoop_eq (len align : UInt64) (l : List Mapping) :
    vmaLoop len align (l.length-1) l =
      (firstNeighbours (fun b a => gapAt len align a b) l).getD 0 := by
  induction l with
  | nil => rfl
  | cons b l ih =>
    cases l with
    | nil => rfl
    | cons a l =>
      rw [firstNeighbours,gapAt]
      change vmaLoop len align (l.length+1) (b :: a :: l) = _
      rw [vmaLoop]
      simp only [List.length_cons,Nat.add_sub_cancel] at ih
      rw [ih]
      split_ifs <;> rfl

theorem insertHead_eq (maps : List Mapping) : insertHead maps = maps.reverse := by
  have h : ∀ lh, maps.foldl (fun lh vma => vma :: lh) lh = maps.reverse ++ lh := by
    induction maps with
    | nil => exact fun _ => rfl
    | cons m maps ih =>
      intro lh
      rw [List.foldl_cons,ih,List.reverse_cons,List.append_assoc]
      rfl
  rw [insertHead,h,List.append_nil]

end CheriOsTest.AddressGap
