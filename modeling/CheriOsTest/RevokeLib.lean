import CheriOsTest.Capabilities
import CheriOsTest.CStrings
import CheriOsTest.Programs
set_option autoImplicit false

/-! The libcheri_caprevoke test: a block full of capabilities to themselves is taken
chunk by chunk, each chunk is marked, revoked, checked and put back. What the kernel
and libcaprevoke do is a parameter. -/

namespace CheriOsTest.Revoke
open CheriOsTest.Capabilities CheriOsTest.CStrings CheriOsTest.Programs

/-- Memory, the shadow bitmap by granule, `epochs.dequeue` of the shared page, and
the capabilities that the run holds in its registers. -/
structure Machine where
  mem : Memory
  shadow : Nat → Bool
  dequeue : UInt64
  bigblock : Capability
  chunk : Capability

structure RevokeFlags where
  ignoreStart : Bool
  takeStats : Bool
  lastPass : Bool

/-- What is not part of the test. `boundsSet` is `cheri_bounds_set`; `cheriRevoke` hands back
the machine and the `epochs.dequeue` of its result, or fails. -/
structure Platform where
  swVmem : UInt64
  boundsSet : Capability → Nat → Capability
  mmap : Nat → Option Capability
  getShadowNovmem : Bool
  getShadowInfo : Bool
  shadowNomapSet : Machine → Capability → Capability → Int × Machine
  shadowNomapClear : Machine → Capability → Machine
  cheriRevoke : RevokeFlags → Machine → Option (Machine × UInt64)

/-- A test that stops: `cheriostest_failure_errx`, `cheriostest_failure_err` (which adds
the text of errno), or an access that the capability does not allow. -/
inductive Stop where
  | errx : CString → Stop
  | err : CString → Stop
  | fault

/-- `CHERIOSTEST_VERIFY2`. -/
def verify (c : Prop) [Decidable c] (msg : CString) : Except Stop Unit :=
  failIf (¬ c) (.errx msg)

/-- `CHERIOSTEST_CHECK_SYSCALL`. -/
def checkSyscall {α : Type} (text : CString) : Option α → Except Stop α
  | some a => .ok a
  | none => .error (.err (cstr "Call '" ++ text ++ cstr "' failed"))

def checkRevoked (r : Capability) : Bool := !r.tag || (r.otype == -1 && r.perms == 0)

def sizeofPtr : Nat := 16

/-- A run of the test: the machine, how many numbers `rand()` has given, and for the
reader of the run the memories it had before, latest first, and the chunks it took. -/
structure Run where
  machine : Machine
  rands : Nat
  past : List Memory
  chunks : List (Nat × Nat)

def Run.history (r : Run) : List Memory := r.machine.mem :: r.past

/-- `c[ix]`, read. An access through a capability is aligned, or it faults. -/
def load (m : Machine) (c : Capability) (ix : Nat) : Except Stop Capability :=
  let p := c.offset (ix*sizeofPtr)
  if p.Reaches sizeofPtr ∧ p.address%sizeofPtr = 0 then .ok (m.mem (p.address/sizeofPtr))
  else .error .fault

def store (r : Run) (c : Capability) (ix : Nat) (v : Capability) : Except Stop Run :=
  let p := c.offset (ix*sizeofPtr)
  if p.Reaches sizeofPtr ∧ p.address%sizeofPtr = 0 then .ok { r with
    machine := { r.machine with
      mem := Function.update r.machine.mem (p.address/sizeofPtr) v }
    past := r.history }
  else .error .fault

/-- `cheri_perms_and(cheri_bounds_set(&c[ix], 16), ~CHERI_PERM_SW_VMEM)`. Every format bounds
sixteen bytes exactly. -/
def selfReferential (p : Platform) (c : Capability) (ix : Nat) : Capability :=
  ((c.offset (ix*sizeofPtr)).boundsSet 16).permsAnd (~~~p.swVmem)

/-- Fill the first `n` places behind `c` with capabilities to themselves. -/
def fill (p : Platform) (n : Nat) (c : Run → Capability) (r : Run) : Except Stop Run :=
  (List.range n).foldlM (fun r ix => store r (c r) ix (selfReferential p (c r) ix)) r

/-- `cheriostest_cheri_revoke_lib_init`, on a machine `m`. -/
def libInit (p : Platform) (caps : Nat) (m : Machine) : Except Stop Machine := do
  let bigblock ← checkSyscall (cstr "mmap(0, bigblock_caps * sizeof(void *), " ++
    cstr "PROT_READ | PROT_WRITE, MAP_ANON, -1, 0)") (p.mmap (caps*sizeofPtr))
  let r ← fill p caps (fun r => r.machine.bigblock) ⟨{ m with bigblock := bigblock },0,[],[]⟩
  checkSyscall (cstr "cheri_revoke_get_shadow(CHERI_REVOKE_SHADOW_NOVMEM, bigblock, oshadow)")
    (if p.getShadowNovmem then some () else none)
  checkSyscall (cstr "cheri_revoke_get_shadow(CHERI_REVOKE_SHADOW_INFO_STRUCT, NULL, " ++
    cstr "__DEQUALIFY(void **, ocri))") (if p.getShadowInfo then some () else none)
  pure r.machine

inductive Mode where
  | none
  | loadOnce
  | loadSplit
  | loadSplitInit
  | loadSplitFini
  deriving DecidableEq

/-- The size of the next chunk when `left` capabilities are left, and the numbers
that `rand()` has given by then. -/
def chunkSize (mode : Mode) (rand : Nat → Nat) (rands left : Nat) : Nat × Nat :=
  match mode with
  | .loadSplitInit | .loadSplitFini => (left,rands)
  | _ => (min (rand rands%1024+1) left,rands+1)

theorem chunkSize_pos {mode : Mode} {rand : Nat → Nat} {rands left : Nat} (h : 0 < left) :
    0 < (chunkSize mode rand rands left).1 := by
  cases mode <;> simp [chunkSize,h]

theorem chunkSize_le (mode : Mode) (rand : Nat → Nat) (rands left : Nat) :
    (chunkSize mode rand rands left).1 ≤ left := by
  cases mode <;> simp [chunkSize]

/-- The chunks that the loop takes from `off` on when `rand()` decides on their sizes. -/
def randomChunks (rand : Nat → Nat) (rands caps off : Nat) : List (Nat × Nat) :=
  if _h : off < caps then
    let csz := (chunkSize .loadOnce rand rands (caps-off)).1
    (off,csz) :: randomChunks rand (rands+1) caps (off+csz)
  else []
termination_by caps-off
decreasing_by
  have hpos : 0 < csz := chunkSize_pos (by omega)
  omega

def revoke (p : Platform) (text : CString) (flags : RevokeFlags) (r : Run) : Except Stop Run := do
  let (m,dequeue) ← checkSyscall text (p.cheriRevoke flags r.machine)
  verify (m.dequeue = dequeue) (cstr "Bad shared clock")
  pure { r with machine := m,past := r.history }

def lastPass (p : Platform) (r : Run) : Except Stop Run :=
  revoke p (cstr "cheri_revoke( CHERI_REVOKE_LAST_PASS | CHERI_REVOKE_IGNORE_START | " ++
    cstr "CHERI_REVOKE_TAKE_STATS, 0, &crsi)") ⟨true,true,true⟩ r

def checkOutside (m : Machine) (side : CString) (ix : Nat) : Except Stop Unit := do
  let c ← load m m.bigblock ix
  verify (¬ checkRevoked c)
    (cstr "Revoked cap incorrectly " ++ side ++ cstr " object, at ix=" ++ fmtD ix)

def checkInside (m : Machine) (ix : Nat) : Except Stop Unit := do
  let c ← load m m.chunk ix
  verify (checkRevoked c) (cstr "Unrevoked at ix=" ++ fmtD ix ++ cstr " after revoke")

def checkSurroundings (caps off csz : Nat) (m : Machine) : Except Stop Unit := do
  (List.range off).forM (checkOutside m (cstr "below"))
  (List.range' (off+csz) (caps-(off+csz))).forM (checkOutside m (cstr "above"))

def openEpoch (p : Platform) (paranoia : Int) (mode : Mode) (caps off csz : Nat) (r : Run) :
    Except Stop Run := do
  let (collision,m) := p.shadowNomapSet r.machine r.machine.chunk r.machine.chunk
  verify (collision = 0) (cstr "Shadow update collision")
  let r ← revoke p (cstr "cheri_revoke(crflags, 0, &crsi)") ⟨true,true,mode = .loadOnce⟩
    { r with machine := m }
  if 1 < paranoia then checkSurroundings caps off csz r.machine
  if 0 < paranoia then (List.range csz).forM (checkInside r.machine)
  pure r

def putBack (p : Platform) (csz : Nat) (r : Run) : Except Stop Run :=
  fill p csz (fun r => r.machine.chunk)
    { r with machine := p.shadowNomapClear r.machine r.machine.chunk }

def takeChunk (p : Platform) (off csz rands : Nat) (r : Run) : Run :=
  { r with
    machine := { r.machine with
      chunk := p.boundsSet (r.machine.bigblock.offset (off*sizeofPtr)) (csz*sizeofPtr) }
    rands := rands
    chunks := r.chunks ++ [(off,csz)] }

/-- One round of the loop: either the function returns, or the loop goes on. -/
def round (p : Platform) (paranoia : Int) (mode : Mode) (caps off csz : Nat) (r : Run) :
    Except Stop (Run ⊕ Run) :=
  match mode with
  | .loadSplitFini => do
    -- the jump to load_split_fini
    let r ← lastPass p r
    let r ← putBack p csz r
    pure (.inr r)
  | _ => do
    let r ← openEpoch p paranoia mode caps off csz r
    if mode = .loadSplitInit then pure (.inl r)
    else
      let r ← if mode = .loadSplit then lastPass p r else pure r
      let r ← putBack p csz r
      pure (.inr r)

def libLoop (p : Platform) (rand : Nat → Nat) (paranoia : Int) (mode : Mode) (caps off : Nat)
    (r : Run) : Except Stop Run :=
  if _h : off < caps then
    let csz := (chunkSize mode rand r.rands (caps-off)).1
    let rands := (chunkSize mode rand r.rands (caps-off)).2
    match round p paranoia mode caps off csz (takeChunk p off csz rands r) with
    | .error e => .error e
    | .ok (.inl r') => .ok r'
    | .ok (.inr r') => libLoop p rand paranoia mode caps (off+csz) r'
  else .ok r
termination_by caps-off
decreasing_by
  have hpos : 0 < csz := chunkSize_pos (by omega)
  omega

/-- `cheriostest_cheri_revoke_lib_run`, when `rand()` has given `rands` numbers. -/
def libRun (p : Platform) (rand : Nat → Nat) (paranoia : Int) (mode : Mode) (caps : Nat)
    (m : Machine) (rands : Nat) : Except Stop Run :=
  libLoop p rand paranoia mode caps 0 ⟨m,rands,[],[]⟩

end CheriOsTest.Revoke
