import CheriOsTest.ArgvBounds
import CheriOsTest.CommandLine
import CheriOsTest.Quarantine
import CheriOsTest.Views
set_option autoImplicit false

/-! The tests that hand invalid pointers to `munmap`, `mprotect`, `minherit` and `shmdt`: three
adjacent mappings in a gap of the address space, calls that the pointer to the middle one does
not allow, and the calls that it does. -/

namespace CheriOsTest.CheriAbi
open CheriOsTest.AddressGap CheriOsTest.CStrings CheriOsTest.Harness CheriOsTest.Programs
open CheriOsTest.Quarantine CheriOsTest.Revoke CheriOsTest.Views

/-- A pointer as the calls see it. -/
structure MapPtr extends BoundedPtr where
  tag : Bool

inductive Prot where
  | none
  | read
  | readWrite
  deriving DecidableEq

inductive Inherit where
  | none
  | share

/-- The calls that are handed a pointer to memory. -/
inductive VmCall where
  | munmap : MapPtr → UInt64 → VmCall
  | mprotect : MapPtr → UInt64 → Prot → VmCall
  | minherit : MapPtr → UInt64 → Inherit → VmCall
  | shmdt : MapPtr → VmCall

/-- The kernel over its states `σ`. A call gives its result and `errno`; a store that the
pointer does not allow faults. `keepsTag` is the capability format's answer for a pointer that
is moved to another address. -/
structure VmKernel (σ : Type) where
  os : OS
  EPROT : Int
  pageSize : UInt64
  cheri : Cheri
  keepsTag : MapPtr → UInt64 → Bool
  fmtP : UInt64 → CString
  strerror : Int → Option CString
  maps : σ → List Mapping
  mmap : UInt64 → UInt64 → σ → Option MapPtr × σ
  shmget : UInt64 → σ → Option Int × σ
  shmat : Int → UInt64 → σ → Option MapPtr × σ
  call : VmCall → σ → (Int × Int) × σ
  store : MapPtr → σ → Option σ

abbrev VmTest (σ : Type) := EStateM Stop σ

variable {σ : Type}

def check {α : Type} : Except Stop α → VmTest σ α
  | .ok a => pure a
  | .error e => throw e

/-- `CHERIOSTEST_CHECK_SYSCALL` around a call that gives no result at all where it fails. -/
def checkCall {α : Type} (text : CString) (f : σ → Option α × σ) : VmTest σ α := do
  let r ← modifyGet f
  check (checkSyscall text r)

/-- `CHERIOSTEST_CHECK_SYSCALL2`. -/
def checkCall2 {α : Type} (message : CString) (f : σ → Option α × σ) : VmTest σ α := do
  let r ← modifyGet f
  match r with
  | some a => pure a
  | none => throw (.err message)

/-- `CHERIOSTEST_CHECK_SYSCALL` around a call on memory. -/
def checkVm (k : VmKernel σ) (text : CString) (c : VmCall) : VmTest σ Unit := do
  let (ret,_) ← modifyGet (k.call c)
  check (checkSyscall text (if ret = -1 then none else some ()))

/-- `_cheriostest_check_errno`. -/
def checkErrno (k : VmKernel σ) (context : CString) (actual expected : Int) : Except Stop Unit :=
  if expected = actual then .ok ()
  else match k.strerror actual,k.strerror expected with
    | none,_ => .error (.err (cstr "sterror_r(" ++ fmtD actual ++ cstr ")"))
    | some _,none => .error (.err (cstr "sterror_r(" ++ fmtD expected ++ cstr ")"))
    | some actualStr,some expectedStr => .error (.errx (context ++ cstr " errno " ++ fmtD actual ++
      cstr " (" ++ actualStr ++ cstr ") != expected errno " ++ fmtD expected ++ cstr " (" ++
      expectedStr ++ cstr ")"))

/-- `CHERIOSTEST_CHECK_CALL_ERROR`. -/
def checkCallError (k : VmKernel σ) (text : CString) (c : VmCall) (expectedErrno : Int) :
    VmTest σ Unit := do
  let (ret,callErrno) ← modifyGet (k.call c)
  check (verify (ret = -1) (text ++ cstr " unexpectedly returned " ++ fmtD ret))
  check (checkErrno k text callErrno expectedErrno)

def checkEqLong (aStr : CString) (a : UInt64) (bStr : CString) (b : UInt64) : Except Stop Unit :=
  verify (a = b) (aStr ++ cstr " (0x" ++ fmtLx a.toNat ++ cstr ") == " ++ bStr ++ cstr " (0x" ++
    fmtLx b.toNat ++ cstr ") failed!")

def VmKernel.search (k : VmKernel σ) (maps : List Mapping) (len : UInt64) : Except CString UInt64 :=
  match k.os with
  | .freeBSD => findAddressSpaceGapFreeBSD k.cheri maps len 0
  | .linux => findAddressSpaceGapLinux k.cheri maps len 0

def findGap (k : VmKernel σ) (len : UInt64) : VmTest σ UInt64 := do
  let s ← get
  check ((k.search (k.maps s) len).mapError .errx)

structure AdjacentMappings where
  first : MapPtr
  middle : MapPtr
  last : MapPtr
  maplen : UInt64

/-- The call that maps at an address, its text, and what the addresses are compared with. -/
structure MapAt (σ : Type) where
  map : UInt64 → σ → Option MapPtr × σ
  text : CString
  middleAt : CString
  lastAt : CString

/-- The three calls, from the first requested address on. -/
def mapAdjacent (k : VmKernel σ) (mapAt : MapAt σ) (len requestedAddr : UInt64) :
    VmTest σ AdjacentMappings := do
  let failed := fun addr => cstr "Failed to create mapping at address " ++ k.fmtP addr
  let first ← checkCall mapAt.text (mapAt.map requestedAddr)
  check (verifyCond first.tag (cstr "cheri_tag_get(mappings->first)"))
  let middle ← checkCall2 (failed (first.address+len)) (mapAt.map (first.address+len))
  check (checkEqLong (cstr "(ptraddr_t)mappings->middle") middle.address mapAt.middleAt
    (first.address+len))
  check (verifyCond middle.tag (cstr "cheri_tag_get(mappings->middle)"))
  let last ← checkCall2 (failed (middle.address+len)) (mapAt.map (middle.address+len))
  check (checkEqLong (cstr "(ptraddr_t)mappings->last") last.address mapAt.lastAt
    (middle.address+len))
  check (verifyCond last.tag (cstr "cheri_tag_get(mappings->last)"))
  pure ⟨first,middle,last,len⟩

def mmapFixed (k : VmKernel σ) (len : UInt64) : MapAt σ where
  map addr := k.mmap addr len
  text := cstr "mmap(requested_addr, len, PROT_READ | PROT_WRITE, " ++
    cstr "MAP_ANON | MAP_FIXED | MAP_PRIVATE, -1, 0)"
  middleAt := cstr "(ptraddr_t)mappings->first + len"
  lastAt := cstr "(ptraddr_t)mappings->middle + len"

def createAdjacentMappings (k : VmKernel σ) : VmTest σ AdjacentMappings := do
  let len := k.pageSize*2
  let requestedAddr ← findGap k (len*3)
  mapAdjacent k (mmapFixed k len) len requestedAddr

def shmatSegment (k : VmKernel σ) (shmid : Int) : MapAt σ where
  map := k.shmat shmid
  text := cstr "shmat(shmid, requested_addr, 0)"
  middleAt := cstr "(ptraddr_t)requested_addr"
  lastAt := cstr "(ptraddr_t)requested_addr"

def createAdjacentMappingsShm (k : VmKernel σ) : VmTest σ AdjacentMappings := do
  let len := k.pageSize*2
  let shmid ← checkCall (cstr "shmget(IPC_PRIVATE, len, 0600)") (k.shmget len)
  let requestedAddr ← findGap k (len*3)
  mapAdjacent k (shmatSegment k shmid) len requestedAddr

def freeAdjacentMappings (k : VmKernel σ) (mappings : AdjacentMappings) : VmTest σ Unit := do
  checkVm k (cstr "munmap(mappings->first, mappings->maplen)")
    (.munmap mappings.first mappings.maplen)
  checkVm k (cstr "munmap(mappings->middle, mappings->maplen)")
    (.munmap mappings.middle mappings.maplen)
  checkVm k (cstr "munmap(mappings->last, mappings->maplen)")
    (.munmap mappings.last mappings.maplen)

def freeAdjacentMappingsShm (k : VmKernel σ) (mappings : AdjacentMappings) : VmTest σ Unit := do
  checkVm k (cstr "shmdt(mappings->first)") (.shmdt mappings.first)
  checkVm k (cstr "shmdt(mappings->middle)") (.shmdt mappings.middle)
  checkVm k (cstr "shmdt(mappings->last)") (.shmdt mappings.last)

/-- Pointer arithmetic: the bounds stay, the tag may be lost. -/
def moved (k : VmKernel σ) (p : MapPtr) (address : UInt64) : MapPtr :=
  { p with address := address, tag := p.tag && k.keepsTag p address }

/-- `p[0] = 'a'`. -/
def storeByte (k : VmKernel σ) (p : MapPtr) : VmTest σ Unit := do
  let s ← get
  match k.store p s with
  | some s' => set s'
  | none => throw .fault

/-- Arguments that a call has to reject, their texts, and the mapping that the test writes to
when the call has been rejected. -/
structure InvalidArgs where
  ptr : MapPtr
  ptrText : CString
  len : UInt64
  lenText : CString
  written : MapPtr

def invalidLengths (m : AdjacentMappings) : List InvalidArgs :=
  [⟨m.middle,cstr "mappings.middle",m.maplen*2,cstr "mappings.maplen * 2",m.middle⟩,
    ⟨m.middle,cstr "mappings.middle",m.maplen+1,cstr "mappings.maplen + 1",m.middle⟩]

def invalidPtrs (k : VmKernel σ) (m : AdjacentMappings) : List InvalidArgs :=
  [⟨{ m.middle with tag := false },cstr "cheri_tag_clear(mappings.middle)",m.maplen,
      cstr "mappings.maplen",m.middle⟩,
    ⟨moved k m.middle (m.middle.address-m.maplen),cstr "mappings.middle - mappings.maplen",m.maplen,
      cstr "mappings.maplen",m.first⟩,
    ⟨moved k m.middle (m.middle.address+m.maplen),cstr "mappings.middle + mappings.maplen",m.maplen,
      cstr "mappings.maplen",m.last⟩]

def expectedErrno (k : VmKernel σ) : Int :=
  match k.os with
  | .freeBSD => k.EPROT
  | .linux => EINVAL

/-- `name(ptr, len)`, or with one more argument. -/
def callText (name more : String) (args : InvalidArgs) : CString :=
  cstr name ++ cstr "(" ++ args.ptrText ++ cstr ", " ++ args.lenText ++ cstr more ++ cstr ")"

def checkRejected (k : VmKernel σ) (call : MapPtr → UInt64 → VmCall)
    (text : InvalidArgs → CString) (expectedErrno : Int) (args : InvalidArgs) : VmTest σ Unit :=
  checkCallError k (text args) (call args.ptr args.len) expectedErrno

def checkRejectedThenWrite (k : VmKernel σ) (call : MapPtr → UInt64 → VmCall)
    (text : InvalidArgs → CString) (args : InvalidArgs) : VmTest σ Unit := do
  checkRejected k call text (expectedErrno k) args
  storeByte k args.written

def cheriabiMunmapInvalidPtr (k : VmKernel σ) : VmTest σ Unit := do
  let mappings ← createAdjacentMappings k
  (invalidLengths mappings ++ invalidPtrs k mappings).forM
    (checkRejectedThenWrite k .munmap (callText "munmap" ""))
  freeAdjacentMappings k mappings

def cheriabiMprotectInvalidPtr (k : VmKernel σ) : VmTest σ Unit := do
  let mappings ← createAdjacentMappings k
  (invalidLengths mappings ++ invalidPtrs k mappings).forM
    (checkRejectedThenWrite k (fun p len => .mprotect p len .none)
      (callText "mprotect" ", PROT_NONE"))
  checkVm k (cstr "mprotect(mappings.middle, mappings.maplen, PROT_NONE)")
    (.mprotect mappings.middle mappings.maplen .none)
  checkVm k (cstr "mprotect(mappings.middle, mappings.maplen, PROT_READ)")
    (.mprotect mappings.middle mappings.maplen .read)
  freeAdjacentMappings k mappings

/-- Only for FreeBSD. -/
def cheriabiMinheritInvalidPtr (k : VmKernel σ) : VmTest σ Unit := do
  let mappings ← createAdjacentMappings k
  (invalidLengths mappings ++ invalidPtrs k mappings).forM
    (checkRejected k (fun p len => .minherit p len .none)
      (callText "minherit" ", INHERIT_NONE") k.EPROT)
  checkVm k (cstr "minherit(mappings.middle, mappings.maplen, INHERIT_NONE)")
    (.minherit mappings.middle mappings.maplen .none)
  checkVm k (cstr "minherit(mappings.middle, mappings.maplen, INHERIT_SHARE)")
    (.minherit mappings.middle mappings.maplen .share)
  freeAdjacentMappings k mappings

def cheriabiShmdtInvalidPtr (k : VmKernel σ) : VmTest σ Unit := do
  let mappings ← createAdjacentMappingsShm k
  (invalidPtrs k mappings).forM
    (checkRejectedThenWrite k (fun p _ => .shmdt p)
      (fun args => cstr "shmdt(" ++ args.ptrText ++ cstr ")"))
  freeAdjacentMappingsShm k mappings

/-- What an address of a mapping that the process made allows; where a shared segment is
attached, also its first address and its length. -/
structure Access where
  prot : Prot
  attached : Option (Nat × Nat)

/-- The mappings that the process made readable and writable, the addresses that nothing can be
mapped at (other mappings, and what was given back and may be in quarantine), and the lengths of
the shared segments that the process made. -/
structure Vm where
  space : Nat → Option Access
  closed : Set Nat
  segments : Int → Option Nat

/-- `V`, changed by `g` at the `n` addresses from `a` on. -/
def Vm.onRange (V : Vm) (a n : Nat) (g : Option Access → Option Access) : Vm :=
  { V with space := fun x => if a ≤ x ∧ x < a+n then g (V.space x) else V.space x }

def Vm.close (V : Vm) (a n : Nat) : Vm :=
  { V with closed := V.closed ∪ Set.Ico a (a+n) }

def Vm.giveBack (V : Vm) (a n : Nat) : Vm := (V.close a n).onRange a n fun _ => none

def Vm.Free (V : Vm) (a n : Nat) : Prop :=
  ∀ x, a ≤ x → x < a+n → V.space x = none ∧ x ∉ V.closed

/-- The pointer to exactly these addresses. -/
def MapPtr.exactly (addr len : UInt64) : MapPtr := ⟨⟨addr,len,addr⟩,true⟩

/-- The pointer gives authority over the `n` bytes at its address. -/
def MapPtr.Authorizes (p : MapPtr) (n : Nat) : Prop :=
  p.tag = true ∧ p.base.toNat ≤ p.address.toNat ∧ p.address.toNat+n ≤ p.base.toNat+p.length.toNat

/-- From the start of a page on, and all of it mapped. -/
def Vm.Covers (V : Vm) (pageSize : UInt64) (p : MapPtr) (len : UInt64) : Prop :=
  pageSize.toNat ∣ p.address.toNat ∧ 0 < len.toNat ∧
    ∀ x, p.address.toNat ≤ x → x < p.address.toNat+len.toNat → (V.space x).isSome

/-- A segment of length `n` is attached at the pointer, and all of it still is. -/
def Vm.Attached (V : Vm) (p : MapPtr) (prot : Prot) (n : Nat) : Prop :=
  0 < n ∧ ∀ x, p.address.toNat ≤ x → x < p.address.toNat+n →
    V.space x = some ⟨prot,some (p.address.toNat,n)⟩

theorem Vm.Attached.here {V : Vm} {p : MapPtr} {prot : Prot} {n : Nat} (h : V.Attached p prot n) :
    V.space p.address.toNat = some ⟨prot,some (p.address.toNat,n)⟩ :=
  h.2 _ (le_refl _) (by have hpos := h.1; omega)

namespace VmCall

/-- The call is about mappings that are there. -/
def Sensible (pageSize : UInt64) (V : Vm) : VmCall → Prop
  | .munmap p len => V.Covers pageSize p len
  | .mprotect p len _ => V.Covers pageSize p len
  | .minherit p len _ => V.Covers pageSize p len
  | .shmdt p => ∃ prot n, V.Attached p prot n

/-- The pointer of the call has the authority that it needs. -/
def Allowed (V : Vm) : VmCall → Prop
  | .munmap p len => p.Authorizes len.toNat
  | .mprotect p len _ => p.Authorizes len.toNat
  | .minherit p len _ => p.Authorizes len.toNat
  | .shmdt p => ∀ prot n, V.Attached p prot n → p.Authorizes n

def WholePages (pageSize : UInt64) : VmCall → Prop
  | .munmap _ len => pageSize.toNat ∣ len.toNat
  | .mprotect _ len _ => pageSize.toNat ∣ len.toNat
  | .minherit _ len _ => pageSize.toNat ∣ len.toNat
  | .shmdt _ => True

def effect (V : Vm) : VmCall → Vm
  | .munmap p len => V.giveBack p.address.toNat len.toNat
  | .mprotect p len prot =>
    V.onRange p.address.toNat len.toNat (Option.map ({ · with prot := prot }))
  | .minherit _ _ _ => V
  | .shmdt p => match V.space p.address.toNat with
    | some ⟨_,some (_,n)⟩ => V.giveBack p.address.toNat n
    | _ => V

theorem effect_shmdt {V : Vm} {p : MapPtr} {prot : Prot} {a n : Nat}
    (h : V.space p.address.toNat = some ⟨prot,some (a,n)⟩) :
    (VmCall.shmdt p).effect V = V.giveBack p.address.toNat n := by
  simp [effect,h]

end VmCall

/-- A kernel that checks the authority of pointers, as far as the tests call it. Of the calls on
mappings that are there it rejects one without the authority, with the error that the tests
expect and no effect, and carries out one with it on whole pages. It has the memory for mappings
of two pages, and gives a pointer to exactly these; it may run out of shared segments. -/
structure VmKernel.Checking (k : VmKernel σ) (view : σ → Vm) : Prop where
  mmap : ∀ (addr : UInt64) s, k.pageSize.toNat ∣ addr.toNat →
    (view s).Free addr.toNat (k.pageSize*2).toNat →
    ∃ s', k.mmap addr (k.pageSize*2) s = (some (.exactly addr (k.pageSize*2)),s') ∧
      view s' = (view s).onRange addr.toNat (k.pageSize*2).toNat fun _ => some ⟨.readWrite,none⟩
  shmget : ∀ s id s', k.shmget (k.pageSize*2) s = (some id,s') →
    (view s).segments id = none ∧ k.maps s' = k.maps s ∧ view s' =
      { view s with segments := Function.update (view s).segments id (some (k.pageSize*2).toNat) }
  shmget_none : ∀ s s', k.shmget (k.pageSize*2) s = (none,s') → view s' = view s
  shmat : ∀ id (addr : UInt64) s, (view s).segments id = some (k.pageSize*2).toNat →
    k.pageSize.toNat ∣ addr.toNat → (view s).Free addr.toNat (k.pageSize*2).toNat →
    ∃ s', k.shmat id addr s = (some (.exactly addr (k.pageSize*2)),s') ∧
      view s' = (view s).onRange addr.toNat (k.pageSize*2).toNat
        fun _ => some ⟨.readWrite,some (addr.toNat,(k.pageSize*2).toNat)⟩
  allowed : ∀ (c : VmCall) s, c.Sensible k.pageSize (view s) → c.Allowed (view s) →
    c.WholePages k.pageSize →
    ∃ errno s', k.call c s = ((0,errno),s') ∧ view s' = c.effect (view s)
  rejected : ∀ (c : VmCall) s, c.Sensible k.pageSize (view s) → ¬ c.Allowed (view s) →
    ∃ s', k.call c s = ((-1,expectedErrno k),s') ∧ view s' = view s
  store : ∀ p s attached, p.Authorizes 1 →
    (view s).space p.address.toNat = some ⟨.readWrite,attached⟩ →
    ∃ s', k.store p s = some s' ∧ view s' = view s

/-- `V` with three mappings of length `n` from `a` on. -/
def Vm.adjacent (V : Vm) (a n : Nat) (first middle last : Option Access) : Vm :=
  { V with space := fun x =>
      if x < a then V.space x else if x < a+n then first else if x < a+n+n then middle
      else if x < a+n+n+n then last else V.space x }

section Adjacent

variable {V : Vm} {a n : Nat} {first middle last : Option Access}

theorem Vm.Free.adjacent (h : V.Free a (n+n+n)) {W : Vm} (hW : W.space = V.space) :
    W.adjacent a n none none none = W := by
  have hspace : (W.adjacent a n none none none).space = W.space := by
    funext x
    simp only [Vm.adjacent,hW]
    split_ifs with h₁ h₂ h₃ h₄
    · rfl
    · exact (h x (by omega) (by omega)).1.symm
    · exact (h x (by omega) (by omega)).1.symm
    · exact (h x (by omega) (by omega)).1.symm
    · rfl
  cases W
  simp only [Vm.adjacent] at hspace ⊢
  rw [hspace]

theorem Vm.adjacent_at_first {x : Nat} (hx : a ≤ x) (hx' : x < a+n) :
    (V.adjacent a n first middle last).space x = first := by
  simp [Vm.adjacent,hx',Nat.not_lt_of_le hx]

theorem Vm.adjacent_at_middle {x : Nat} (hx : a+n ≤ x) (hx' : x < a+n+n) :
    (V.adjacent a n first middle last).space x = middle := by
  simp [Vm.adjacent,hx',Nat.not_lt_of_le hx,show ¬ x < a by omega]

theorem Vm.adjacent_at_last {x : Nat} (hx : a+n+n ≤ x) (hx' : x < a+n+n+n) :
    (V.adjacent a n first middle last).space x = last := by
  simp [Vm.adjacent,hx',Nat.not_lt_of_le hx,show ¬ x < a by omega,show ¬ x < a+n by omega]

theorem Vm.adjacent_first (V : Vm) (g : Option Access → Option Access) :
    (V.adjacent a n first middle last).onRange a n g = V.adjacent a n (g first) middle last := by
  simp only [Vm.onRange,Vm.adjacent,Vm.mk.injEq,and_true]
  funext x
  split_ifs <;> first | rfl | omega

theorem Vm.adjacent_middle (V : Vm) (g : Option Access → Option Access) :
    (V.adjacent a n first middle last).onRange (a+n) n g =
      V.adjacent a n first (g middle) last := by
  simp only [Vm.onRange,Vm.adjacent,Vm.mk.injEq,and_true]
  funext x
  split_ifs <;> first | rfl | omega

theorem Vm.adjacent_last (V : Vm) (g : Option Access → Option Access) :
    (V.adjacent a n first middle last).onRange (a+n+n) n g =
      V.adjacent a n first middle (g last) := by
  simp only [Vm.onRange,Vm.adjacent,Vm.mk.injEq,and_true]
  funext x
  split_ifs <;> first | rfl | omega

theorem Vm.giveBack_first : (V.adjacent a n first middle last).giveBack a n =
    (V.close a n).adjacent a n none middle last :=
  (V.close a n).adjacent_first fun _ => none

theorem Vm.giveBack_middle : (V.adjacent a n first middle last).giveBack (a+n) n =
    (V.close (a+n) n).adjacent a n first none last :=
  (V.close (a+n) n).adjacent_middle fun _ => none

theorem Vm.giveBack_last : (V.adjacent a n first middle last).giveBack (a+n+n) n =
    (V.close (a+n+n) n).adjacent a n first middle none :=
  (V.close (a+n+n) n).adjacent_last fun _ => none

end Adjacent

end CheriOsTest.CheriAbi
