import CheriOsTest.HugePages
import CheriOsTest.Quarantine
set_option autoImplicit false

/-! The pool of huge pages of a Linux system: its files are opened under names that are
printed back from the sizes. -/

namespace CheriOsTest.HugePages
open CheriOsTest.CStrings CheriOsTest.Programs CheriOsTest.Quarantine CheriOsTest.Revoke

def hugepagesDir : CString := cstr "/sys/kernel/mm/hugepages"

def maxPathLen : Nat := 100

/-- The text before `snprintf` cuts it. -/
def poolText (kb : UInt64) : CString :=
  hugepagesDir ++ cstr "/" ++ (cstr "hugepages-" ++ fmtD kb.toNat ++ cstr "kB") ++
    cstr "/nr_hugepages"

/-- The path that is opened for a size. -/
def poolPath (size : UInt64) : CString := snprintf (maxPathLen-1) (poolText (size/1024))

def noPages (kb : UInt64) : CString :=
  cstr "No pages in the hugepages pool for size " ++ fmtD kb.toNat ++
    cstr "kB (\"echo <pages> > /sys/kernel/mm/hugepages/hugepages-<size>kB/nr_hugepages\" set " ++
    cstr "the number of pages in the pool)"

/-- `files` gives the text of a file that can be opened. -/
def checkHugepagesPool (files : CString → Option CString) (sizes : List UInt64) :
    Except Stop Unit :=
  sizes.forM fun size => do
    let f := files (poolPath size)
    verify f.isSome (cstr "Couldn't open nr_hugepages")
    let poolPages := scanLu (f.getD [])
    verify poolPages.isSome (cstr "Couldn't read page count in hugepages pool")
    verify (poolPages.getD 0 ≠ 0) (noPages (size/1024))

section Decimal

theorem fmtD_eq (n : Nat) : fmtD n = (Nat.toDigits 10 n).map fun c => UInt8.ofNat c.toNat := by
  rw [fmtD,cstr,Int.toString_eq_repr]
  simp [Int.repr]

theorem fmtD_lt {n : Nat} (h : n < 10) : fmtD n = [UInt8.ofNat (Nat.digitChar n).toNat] := by
  rw [fmtD_eq,Nat.toDigits_of_lt_base h]
  rfl

theorem fmtD_ge {n : Nat} (h : 10 ≤ n) :
    fmtD n = fmtD (n/10 : Nat) ++ [UInt8.ofNat (Nat.digitChar (n%10)).toNat] := by
  rw [fmtD_eq,fmtD_eq,Nat.toDigits_of_base_le (by decide) h,List.map_append]
  rfl

theorem decimal_spec {n : Nat} (h : n < 10) :
    isDigit (UInt8.ofNat (Nat.digitChar n).toNat) = true ∧
      (UInt8.ofNat (Nat.digitChar n).toNat).toNat-48 = n := by
  interval_cases n <;> decide

theorem fmtD_isDigit (n : Nat) : ∀ b ∈ fmtD n, isDigit b = true := by
  induction n using Nat.strongRecOn with
  | ind n ih =>
    by_cases h : n < 10
    · rw [fmtD_lt h]
      simpa using (decimal_spec h).1
    · rw [fmtD_ge (by omega)]
      intro b hb
      rcases List.mem_append.mp hb with hb | hb
      · exact ih (n/10) (by omega) b hb
      · rw [List.mem_singleton.mp hb]
        exact (decimal_spec (Nat.mod_lt n (by decide))).1

theorem foldl_fmtD (n : Nat) : (fmtD n).foldl (fun n b => 10*n+(b.toNat-48)) 0 = n := by
  induction n using Nat.strongRecOn with
  | ind n ih =>
    by_cases h : n < 10
    · rw [fmtD_lt h]
      simpa using (decimal_spec h).2
    · rw [fmtD_ge (by omega),List.foldl_append,ih (n/10) (by omega)]
      simp only [List.foldl_cons,List.foldl_nil,(decimal_spec (Nat.mod_lt n (by decide))).2]
      omega

theorem fmtD_length_le (n : UInt64) : (fmtD n.toNat).length ≤ 20 := by
  rw [fmtD_eq,List.length_map]
  exact Nat.toDigits_length 10 n.toNat 20 (by decide) (n.toNat_lt.trans (by decide))

/-- `%lu` reads back what `%zu` has printed. -/
theorem scanLu_fmtD (n : UInt64) {rest : CString} (hrest : ∀ b ∈ rest.head?, isDigit b = false) :
    scanLu (fmtD n.toNat ++ rest) = some n := by
  obtain ⟨b,digits,hn,hb⟩ := fmtD_head n.toNat
  have hother : ∀ b : UInt8, isDigit b = true → isSpace b = false ∧ b ≠ 45 ∧ b ≠ 43 := by
    decide +kernel
  obtain ⟨hspace,hminus,hplus⟩ := hother b hb
  have hdigits := fmtD_isDigit n.toNat
  have hvalue := foldl_fmtD n.toNat
  have htake : (fmtD n.toNat ++ rest).takeWhile isDigit = fmtD n.toNat := by
    rw [List.takeWhile_append_of_pos hdigits]
    cases rest with
    | nil => simp
    | cons c rest => simp [hrest c rfl]
  rw [hn] at htake hvalue
  simp only [scanLu,hn,List.cons_append,List.dropWhile_cons,hspace]
  simp only [List.cons_append] at htake
  simp [hminus,hplus,htake,hvalue]
  exact fun hlarge => absurd n.toNat_lt (Nat.not_lt_of_le hlarge)

theorem fmtD_inj {n m : Nat} (h : fmtD n = fmtD m) : n = m := by
  rw [← foldl_fmtD n,h,foldl_fmtD]

end Decimal

/-- The name that Linux gives to the directory of a size. -/
def sizeName (kb : UInt64) : CString := cstr "hugepages-" ++ fmtD kb.toNat ++ cstr "kB"

/-- The file with the number of pages of a size. -/
def nrHugepages (name : CString) : CString :=
  hugepagesDir ++ cstr "/" ++ name ++ cstr "/nr_hugepages"

section Paths

variable {kb : UInt64}

theorem scanHugepages_sizeName (kb : UInt64) : scanHugepages (sizeName kb) = some kb := by
  have hunit : cstr "kB" = [107,66] := by decide
  rw [scanHugepages,sizeName,List.append_assoc,if_pos (List.prefix_append _ _),List.drop_left,hunit]
  exact scanLu_fmtD kb (by simp [isDigit])

/-- No path is cut. -/
theorem poolText_length (kb : UInt64) : (poolText kb).length ≤ maxPathLen-1-1 := by
  have hdir : hugepagesDir.length = 24 := by decide
  have hslash : (cstr "/").length = 1 := by decide
  have hname : (cstr "hugepages-").length = 10 := by decide
  have hunit : (cstr "kB").length = 2 := by decide
  have hfile : (cstr "/nr_hugepages").length = 13 := by decide
  have hdigits := fmtD_length_le kb
  simp only [poolText,List.length_append,hdir,hslash,hname,hunit,hfile,maxPathLen]
  omega

theorem poolPath_eq (size : UInt64) : poolPath size = nrHugepages (sizeName (size/1024)) := by
  rw [poolPath,snprintf,List.take_of_length_le (poolText_length _)]
  rfl

/-- The multiplication wraps where the size does not fit. -/
theorem kilobytes (kb : UInt64) : (kb*1024/1024).toNat = kb.toNat%2^54 := by
  have hk := kb.toNat_lt
  simp only [UInt64.toNat_div,UInt64.toNat_mul,UInt64.reduceToNat]
  omega

theorem poolPath_iff (kb : UInt64) :
    poolPath (kb*1024) = nrHugepages (sizeName kb) ↔ kb.toNat < 2^54 := by
  rw [poolPath_eq]
  simp only [nrHugepages,sizeName,List.append_cancel_left_eq,List.append_cancel_right_eq]
  constructor
  · intro h
    have hkb := fmtD_inj h
    rw [kilobytes] at hkb
    omega
  · intro h
    rw [kilobytes,Nat.mod_eq_of_lt h]

end Paths

/-- What the pool has to hold for a name. -/
def Pooled (files : CString → Option CString) (name : CString) : Prop :=
  ∃ text n, files (nrHugepages name) = some text ∧ scanLu text = some n ∧ n ≠ 0

/-- The names that the directory has for sizes are those that Linux gives. -/
def Canonical (names : List CString) : Prop :=
  ∀ name ∈ names, (scanHugepages name).isSome → ∃ kb : UInt64, kb.toNat < 2^54 ∧ name = sizeName kb

/-- The sizes that `get_pagesizes` leaves in its array. -/
def PageSizes.sizes (s : PageSizes) : List UInt64 := s.stores.map Prod.snd

theorem stored_sizes (count : Nat) (kbs : List UInt64) :
    (stored count kbs).map Prod.snd = kbs.map (·*1024) := by
  induction kbs generalizing count with
  | nil => rfl
  | cons kb kbs ih => simp [stored,ih]

theorem checkHugepagesPool_iff (files : CString → Option CString) (sizes : List UInt64) :
    checkHugepagesPool files sizes = .ok () ↔
      ∀ size ∈ sizes, Pooled files (sizeName (size/1024)) := by
  rw [checkHugepagesPool,forM_eq_ok_iff]
  refine forall₂_congr fun size _ => ?_
  simp only [verify,bind_unit_eq_ok,failIf_eq_ok,not_not,poolPath_eq,Pooled]
  cases hfile : files (nrHugepages (sizeName (size/1024))) with
  | none => simp
  | some text => cases hscan : scanLu text <;> simp [hscan]

theorem getPagesizes_sizes {names : List CString}
    (h : (names.filterMap scanHugepages).length ≤ maxSize) :
    ∃ s, getPagesizes names = .ok s ∧ s.sizes = (names.filterMap scanHugepages).map (·*1024) := by
  rw [getPagesizes_eq]
  refine ⟨_,sizes_fit (by dsimp only; omega),?_⟩
  rw [PageSizes.sizes,List.nil_append,stored_sizes]

/-- The pools of the sizes are those of the names. -/
theorem pools_iff {names : List CString} {files : CString → Option CString}
    (hcanonical : Canonical names) :
    (∀ size ∈ (names.filterMap scanHugepages).map (·*1024), Pooled files (sizeName (size/1024))) ↔
      ∀ name ∈ names, (scanHugepages name).isSome → Pooled files name := by
  have hback : ∀ kb : UInt64, kb.toNat < 2^54 → kb*1024/1024 = kb := by
    intro kb hkb
    apply UInt64.toNat_inj.mp
    rw [kilobytes,Nat.mod_eq_of_lt hkb]
  constructor
  · intro h name hname hmatch
    obtain ⟨kb,hkb,rfl⟩ := hcanonical name hname hmatch
    have hmem : kb*1024 ∈ (names.filterMap scanHugepages).map (·*1024) :=
      List.mem_map_of_mem (List.mem_filterMap.mpr ⟨_,hname,scanHugepages_sizeName kb⟩)
    rw [← hback kb hkb]
    exact h _ hmem
  · intro h size hsize
    obtain ⟨kb,hmem,rfl⟩ := List.mem_map.mp hsize
    obtain ⟨name,hname,hscan⟩ := List.mem_filterMap.mp hmem
    have hsome : (scanHugepages name).isSome = true := by rw [hscan]; rfl
    obtain ⟨kb',hkb',rfl⟩ := hcanonical name hname hsome
    have hkb : kb' = kb := Option.some.inj ((scanHugepages_sizeName kb').symm.trans hscan)
    subst hkb
    rw [hback kb' hkb']
    exact h _ hname hsome

/-- The sizes go back to the names that they came from: the pool is asked for exactly the
directories that were listed, under paths that are never cut. The size of a name finds its
way back exactly where it fits into 64 bits. -/
theorem pool_checked_iff (names : List CString) (files : CString → Option CString)
    (hcanonical : Canonical names) (hfew : (names.filterMap scanHugepages).length ≤ maxSize) :
    (∃ s, getPagesizes names = .ok s ∧ (checkHugepagesPool files s.sizes = .ok () ↔
      ∀ name ∈ names, (scanHugepages name).isSome → Pooled files name)) ∧
    ∀ kb : UInt64, poolPath (kb*1024) = nrHugepages (sizeName kb) ↔ kb.toNat < 2^54 := by
  obtain ⟨s,hs,hsizes⟩ := getPagesizes_sizes hfew
  refine ⟨⟨s,hs,?_⟩,poolPath_iff⟩
  rw [checkHugepagesPool_iff,hsizes]
  exact pools_iff hcanonical

/-- The directories of a common system, with the entries that every directory has. -/
def plainNames : List CString := [cstr ".",cstr "..",sizeName 2048,sizeName 1048576]

theorem plainNames_sizes : ∀ name ∈ plainNames, ∀ kb, scanHugepages name = some kb →
    name = sizeName kb ∧ (kb = 2048 ∨ kb = 1048576) := by
  intro name hname kb hscan
  have hdots : scanHugepages (cstr ".") = none ∧ scanHugepages (cstr "..") = none := by
    decide +kernel
  simp only [plainNames,List.mem_cons,List.not_mem_nil,or_false] at hname
  rcases hname with rfl | rfl | rfl | rfl
  · simp [hdots.1] at hscan
  · simp [hdots.2] at hscan
  · rw [scanHugepages_sizeName] at hscan
    cases hscan
    exact ⟨rfl,.inl rfl⟩
  · rw [scanHugepages_sizeName] at hscan
    cases hscan
    exact ⟨rfl,.inr rfl⟩

theorem plainNames_canonical : Canonical plainNames := by
  intro name hname hmatch
  obtain ⟨kb,hscan⟩ := Option.isSome_iff_exists.mp hmatch
  obtain ⟨hkb,h⟩ := plainNames_sizes name hname kb hscan
  exact ⟨kb,by rcases h with rfl | rfl <;> decide,hkb⟩

theorem plainNames_few : (plainNames.filterMap scanHugepages).length ≤ maxSize :=
  (List.length_filterMap_le _ _).trans (by decide)

theorem pool_checked_plain : ∃ s, getPagesizes plainNames = .ok s ∧
    (checkHugepagesPool (fun _ => some (cstr "16\n")) s.sizes = .ok () ↔
      ∀ name ∈ plainNames, (scanHugepages name).isSome →
        Pooled (fun _ => some (cstr "16\n")) name) :=
  (pool_checked_iff plainNames (fun _ => some (cstr "16\n")) plainNames_canonical plainNames_few).1

end CheriOsTest.HugePages
