import CheriOsTest.RevokeLib
set_option autoImplicit false

/-! The sweep of copies through the kernel: a buffer filled by position is bounced into a
spoiled one, over all offsets and lengths near the ends of a page. -/

namespace CheriOsTest.Kbounce
open CheriOsTest.CStrings CheriOsTest.Programs CheriOsTest.Revoke

variable {n : Nat}

def fillbuf (buf : Vector UInt8 n) : Vector UInt8 n :=
  (List.finRange n).foldl (fun buf (i : Fin n) => buf.set i (UInt8.ofNat (i &&& 0xFF)) i.isLt) buf

def spoilbuf (buf : Vector UInt8 n) : Vector UInt8 n :=
  (List.finRange n).foldl (fun buf (i : Fin n) => buf.set i (~~~buf.get i) i.isLt) (fillbuf buf)

def checkbuf (buf : Vector UInt8 n) (offset len : Nat) (place : String) : Except Stop Unit :=
  (List.range' offset len).forM fun i =>
    match buf[i]? with
    | none => .error .fault
    | some b => verify (b = UInt8.ofNat (i &&& 0xFF)) (cstr place ++ cstr ": buf[" ++ fmtD i ++
        cstr "] != 0x" ++ fmt02x (UInt8.ofNat (i &&& 0xFF)) ++ cstr " (0x" ++ fmt02x b ++ cstr ")")

/-- The system under test, for pages of `n` bytes. A call of `kbounce` knows how many came
before it and may do anything to `dst`; `text` is the `%p` of a pointer into the mapping. -/
structure Kernel (n : Nat) where
  mmap : Nat → Bool
  mprotect : Nat → Nat → Bool
  kbounce : Nat → Nat → Nat → Vector UInt8 n → Vector UInt8 n → Int × Vector UInt8 n
  text : Nat → CString
  sharpText : Nat → CString

/-- `lengths`, up to the 0 that ends it. -/
def lengths (n : Nat) : List Int :=
  (List.range 32).map (fun i : Nat => (i : Int)+1) ++ [(n : Int)] ++
    (List.range 31).map (fun i : Nat => -((i : Int)+1))

def lengthOf (n off : Nat) (l : Int) : Nat :=
  if l = n then n-off
  else if l < 0 then ((n : Int)-off+l).toNat
  else l.toNat

def partials (n : Nat) : List (Nat × Nat) :=
  (List.range 16).flatMap fun off => (lengths n).map fun l => (off,lengthOf n off l)

structure Sweep (n : Nat) where
  calls : Nat
  dst : Vector UInt8 n

def partialBuffer (k : Kernel n) (src : Vector UInt8 n) (s : Sweep n) (c : Nat × Nat) :
    Except Stop (Sweep n) := do
  let (ret,dst) := k.kbounce s.calls c.1 c.2 src (spoilbuf s.dst)
  failIf (ret ≠ 0) (.err (cstr "kbounce(\n  " ++ k.sharpText (n+c.1) ++ cstr ",\n  " ++
    k.sharpText (3*n+c.1) ++ cstr ",\n" ++ fmtD c.2 ++ cstr ", 0)"))
  checkbuf src c.1 c.2 "partial buffer"
  pure ⟨s.calls+1,dst⟩

/-- The test, with `BUFLEN` and `GUARDLEN` one page each. -/
def sysKbounce (k : Kernel n) : Except Stop Unit := do
  failIf (¬ k.mmap (n*2+n*3)) (.err (cstr "mmap of " ++ fmtD (n*2+n*3) ++ cstr " failed"))
  failIf (¬ k.mprotect 0 n) (.err (cstr "mprotect of first guard region failed"))
  failIf (¬ k.mprotect (n+n) n) (.err (cstr "mprotect of second guard region failed"))
  failIf (¬ k.mprotect (2*(n+n)) n) (.err (cstr "mprotect of third guard region failed"))
  let src := fillbuf (Vector.replicate n 0)
  checkbuf src 0 n "src"
  let (ret,dst) := k.kbounce 0 0 n src (spoilbuf (Vector.replicate n 0))
  failIf (ret ≠ 0) (.err (cstr "kbounce(" ++ k.text n ++ cstr ", " ++ k.text (3*n) ++ cstr ", " ++
    fmtD n ++ cstr ", 0)"))
  checkbuf src 0 n "full buffer"
  let _ ← (partials n).foldlM (partialBuffer k src) ⟨1,dst⟩
  pure ()

section Buffers

theorem foldl_set_get (f : Fin n → UInt8 → UInt8) (buf : Vector UInt8 n) (is : List (Fin n))
    (his : is.Nodup) (j : Fin n) :
    (is.foldl (fun buf i => buf.set i (f i (buf.get i)) i.isLt) buf).get j =
      if j ∈ is then f j (buf.get j) else buf.get j := by
  induction is generalizing buf with
  | nil => rfl
  | cons i is ih =>
    obtain ⟨hi,his⟩ := List.nodup_cons.mp his
    rw [List.foldl_cons,ih _ his]
    by_cases hji : j = i
    · subst hji
      simp [hi,Vector.get_eq_getElem]
    · have hne : i.val ≠ j.val := fun h => hji (Fin.ext h.symm)
      simp [hji,Vector.get_eq_getElem,Vector.getElem_set_ne _ _ hne]

def filled (n : Nat) : Vector UInt8 n := .ofFn fun i => UInt8.ofNat (i &&& 0xFF)

def spoiled (n : Nat) : Vector UInt8 n := .ofFn fun i => ~~~UInt8.ofNat (i &&& 0xFF)

theorem fillbuf_eq (buf : Vector UInt8 n) : fillbuf buf = filled n := by
  ext i hi : 1
  have hset := foldl_set_get (fun i _ => UInt8.ofNat (i &&& 0xFF)) buf _ (List.nodup_finRange n) ⟨i,hi⟩
  rw [if_pos (List.mem_finRange _)] at hset
  rw [filled,Vector.getElem_ofFn]
  exact hset

/-- Whatever a call has left in the buffer, the next one finds it spoiled. -/
theorem spoilbuf_eq (buf : Vector UInt8 n) : spoilbuf buf = spoiled n := by
  ext i hi : 1
  have hset := foldl_set_get (fun _ b => ~~~b) (fillbuf buf) _ (List.nodup_finRange n) ⟨i,hi⟩
  rw [if_pos (List.mem_finRange _),fillbuf_eq] at hset
  rw [spoilbuf,fillbuf_eq,spoiled,Vector.getElem_ofFn]
  refine hset.trans ?_
  simp [filled]

theorem checkbuf_filled {offset len : Nat} (h : offset+len ≤ n) (place : String) :
    checkbuf (filled n) offset len place = .ok () := by
  refine forM_eq_ok fun i hi => ?_
  have hin : i < n := by
    rw [List.mem_range'_1] at hi
    omega
  rw [Vector.getElem?_eq_getElem hin,filled,Vector.getElem_ofFn]
  exact if_neg (not_not.mpr rfl)

theorem spoiled_ne {i : Nat} (hi : i < n) : (spoiled n)[i] ≠ (filled n)[i] := by
  rw [spoiled,filled,Vector.getElem_ofFn,Vector.getElem_ofFn]
  have hnot : ∀ b : UInt8, ~~~b ≠ b := by decide +kernel
  exact hnot _

end Buffers

/-- The call gives this range of `dst` the bytes of `src`. Every call finds both buffers
as `fillbuf` and `spoilbuf` leave them. -/
def Copies (k : Kernel n) (call off len : Nat) : Prop :=
  ∀ i, (hi : i < n) → off ≤ i → i < off+len →
    (k.kbounce call off len (filled n) (spoiled n)).2[i] = (filled n)[i]

def calls (n : Nat) : List (Nat × Nat) := (0,n) :: partials n

section Sweeps

variable {k : Kernel n} {s s' : Sweep n} {c : Nat × Nat}

theorem lengthOf_le {off : Nat} {l : Int} (hn : 47 ≤ n) (hoff : off < 16) (hl : l ∈ lengths n) :
    off+lengthOf n off l ≤ n ∧ 0 < lengthOf n off l := by
  simp only [lengths,List.mem_append,List.mem_map,List.mem_range,List.mem_singleton] at hl
  rw [lengthOf]
  rcases hl with (⟨i,hi,rfl⟩ | rfl) | ⟨i,hi,rfl⟩ <;> split_ifs <;> omega

theorem partials_bounds (hn : 47 ≤ n) (hc : c ∈ partials n) : c.1+c.2 ≤ n ∧ 0 < c.2 := by
  obtain ⟨off,hoff,hc⟩ := List.mem_flatMap.mp hc
  obtain ⟨l,hl,rfl⟩ := List.mem_map.mp hc
  exact lengthOf_le hn (List.mem_range.mp hoff) hl

theorem partialBuffer_eq_ok_iff (hc : c.1+c.2 ≤ n) :
    partialBuffer k (filled n) s c = .ok s' ↔
      (k.kbounce s.calls c.1 c.2 (filled n) (spoiled n)).1 = 0 ∧
        s' = ⟨s.calls+1,(k.kbounce s.calls c.1 c.2 (filled n) (spoiled n)).2⟩ := by
  simp only [partialBuffer,spoilbuf_eq,checkbuf_filled hc,bind_unit_eq_ok,failIf_eq_ok,not_not,
    true_and,pure,Except.pure,Except.ok.injEq,eq_comm (a := s')]

/-- The sweep asks for nothing but return values of 0. -/
theorem partials_ok_iff {cs : List (Nat × Nat)} (hcs : ∀ c ∈ cs, c.1+c.2 ≤ n) :
    (∃ s', cs.foldlM (partialBuffer k (filled n)) s = .ok s') ↔
      ∀ j c, cs[j]? = some c → (k.kbounce (s.calls+j) c.1 c.2 (filled n) (spoiled n)).1 = 0 := by
  induction cs generalizing s with
  | nil =>
    constructor
    · intro _ j c hc
      cases hc
    · exact fun _ => ⟨s,rfl⟩
  | cons c cs ih =>
    rw [List.forall_mem_cons] at hcs
    simp only [List.foldlM_cons,bind_eq_ok,partialBuffer_eq_ok_iff hcs.1]
    constructor
    · rintro ⟨s',s₁,⟨hret,rfl⟩,hs'⟩ j c' hj
      cases j with
      | zero =>
        cases hj
        exact hret
      | succ j =>
        have hrest := (ih hcs.2).mp ⟨s',hs'⟩ j c' hj
        rw [Nat.add_right_comm] at hrest
        exact hrest
    · intro h
      have hrest := (ih (s := ⟨s.calls+1,(k.kbounce s.calls c.1 c.2 (filled n) (spoiled n)).2⟩) hcs.2).mpr
        fun j c' hj => by
          have hret := h (j+1) c' hj
          rw [Nat.add_comm j,← Nat.add_assoc] at hret
          exact hret
      obtain ⟨s',hs'⟩ := hrest
      exact ⟨s',_,⟨h 0 c rfl,rfl⟩,hs'⟩

def Mapped (k : Kernel n) : Prop :=
  k.mmap (n*2+n*3) ∧ k.mprotect 0 n ∧ k.mprotect (n+n) n ∧ k.mprotect (2*(n+n)) n

theorem sysKbounce_ok_iff (hn : 47 ≤ n) : sysKbounce k = .ok () ↔ Mapped k ∧
    ∀ j c, (calls n)[j]? = some c → (k.kbounce j c.1 c.2 (filled n) (spoiled n)).1 = 0 := by
  have hall : 0+n ≤ n := Nat.le_of_eq (Nat.zero_add n)
  have hpartials := partials_ok_iff (k := k) (s := ⟨1,(k.kbounce 0 0 n (filled n) (spoiled n)).2⟩)
    fun c hc => (partials_bounds hn hc).1
  simp only [sysKbounce,fillbuf_eq,spoilbuf_eq,checkbuf_filled hall,bind_unit_eq_ok,failIf_eq_ok,
    true_and,not_not]
  constructor
  · rintro ⟨hmap,h1,h2,h3,hret,hrest⟩
    obtain ⟨s',hs',-⟩ := (bind_eq_ok _ _ _).mp hrest
    refine ⟨⟨hmap,h1,h2,h3⟩,fun j c hc => ?_⟩
    cases j with
    | zero =>
      cases hc
      exact hret
    | succ j =>
      have hj := hpartials.mp ⟨s',hs'⟩ j c hc
      rw [Nat.add_comm] at hj
      exact hj
  · rintro ⟨⟨hmap,h1,h2,h3⟩,hret⟩
    have hrest := hpartials.mpr fun j c hc => by
      have hj := hret (j+1) c hc
      rw [Nat.add_comm] at hj
      exact hj
    obtain ⟨s',hs'⟩ := hrest
    exact ⟨hmap,h1,h2,h3,hret 0 (0,n) rfl,(bind_eq_ok _ _ _).mpr ⟨s',hs',rfl⟩⟩

end Sweeps

def idle (n : Nat) : Kernel n where
  mmap _ := true
  mprotect _ _ := true
  kbounce _ _ _ _ dst := (0,dst)
  text _ := []
  sharpText _ := []

theorem idle_ok (hn : 47 ≤ n) : sysKbounce (idle n) = .ok () :=
  (sysKbounce_ok_iff hn).mpr ⟨⟨rfl,rfl,rfl,rfl⟩,fun _ _ _ => rfl⟩

/-- The test looks at what it filled itself and never at the copy. It is right about a kernel
that reports an error somewhere or copies everything anyway, and for each of its calls
there is a kernel that leaves the whole range wrong and passes. -/
theorem kbounce_oracle_iff (hn : 0 < n) (hpage : 256 ∣ n) :
    (∀ k : Kernel n,
      (sysKbounce k = .ok () → ∀ j c, (calls n)[j]? = some c → Copies k j c.1 c.2) ↔
        ¬ Mapped k ∨
        (∃ j c, (calls n)[j]? = some c ∧ (k.kbounce j c.1 c.2 (filled n) (spoiled n)).1 ≠ 0) ∨
        ∀ j c, (calls n)[j]? = some c → Copies k j c.1 c.2) ∧
    ∀ j c, (calls n)[j]? = some c → ∃ k : Kernel n, sysKbounce k = .ok () ∧
      ∀ i, (hi : i < n) → c.1 ≤ i → i < c.1+c.2 →
        (k.kbounce j c.1 c.2 (filled n) (spoiled n)).2[i] ≠ (filled n)[i] := by
  have hn : 47 ≤ n := Nat.le_trans (by decide) (Nat.le_of_dvd hn hpage)
  refine ⟨fun k => ?_,fun j c _ => ⟨idle n,idle_ok hn,fun i hi _ _ => spoiled_ne hi⟩⟩
  rw [sysKbounce_ok_iff hn]
  constructor
  · intro h
    by_cases hmapped : Mapped k
    · by_cases hret : ∃ j c, (calls n)[j]? = some c ∧ (k.kbounce j c.1 c.2 (filled n) (spoiled n)).1 ≠ 0
      · exact .inr (.inl hret)
      · push Not at hret
        exact .inr (.inr (h ⟨hmapped,hret⟩))
    · exact .inl hmapped
  · rintro (hmapped | ⟨j,c,hc,hne⟩ | hcopies) ⟨hm,hret⟩
    · exact absurd hm hmapped
    · exact absurd (hret j c hc) hne
    · exact hcopies

theorem kbounce_oracle_iff_page : (256 : Nat) ∣ 4096 ∧
    ((sysKbounce (idle 4096) = .ok () →
        ∀ j c, (calls 4096)[j]? = some c → Copies (idle 4096) j c.1 c.2) ↔
      ¬ Mapped (idle 4096) ∨
      (∃ j c, (calls 4096)[j]? = some c ∧
        ((idle 4096).kbounce j c.1 c.2 (filled 4096) (spoiled 4096)).1 ≠ 0) ∨
      ∀ j c, (calls 4096)[j]? = some c → Copies (idle 4096) j c.1 c.2) :=
  ⟨by decide,(kbounce_oracle_iff (by decide) (by decide)).1 (idle 4096)⟩

theorem idle_passes : sysKbounce (idle 4096) = .ok () ∧
    (calls 4096)[0]? = some (0,4096) ∧ ¬ Copies (idle 4096) 0 0 4096 := by
  refine ⟨idle_ok (by decide),rfl,fun h => ?_⟩
  exact spoiled_ne (show 0 < 4096 by decide) (h 0 (by decide) (Nat.le_refl 0) (by decide))

end CheriOsTest.Kbounce
