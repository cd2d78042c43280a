import CheriOsTest.RevokeLib
import CheriOsTest.Verdicts
import CheriOsTest.Reports
set_option autoImplicit false

/-! Revocation of a page that processes share copy-on-write. First a child revokes and the
parent looks at its own copies, then the parent revokes and a second child looks at its
copies when the parent tells it to through a pipe. -/

namespace CheriOsTest.CowRevoke
open CheriOsTest.Capabilities CheriOsTest.CStrings CheriOsTest.Harness CheriOsTest.Programs
open CheriOsTest.Revoke (checkRevoked)

/-- The two pages of the block with a capability for the third: `cap1` and `cap2`. -/
inductive Page where
  | first
  | second
  deriving DecidableEq

def Page.name : Page → CString
  | .first => cstr "*cap1"
  | .second => cstr "*cap2"

inductive Who where
  | parent
  | child1
  | child2
  deriving DecidableEq

/-- What a process has in its block and in the shadow of the third page. -/
structure Space where
  cap : Page → Capability
  quarantined : Bool

/-- `torev` is for the third page, and `cheriRevoke` does to the processes what a pass that
the given one asks for does. `res` is what the stack of the test holds there. -/
structure Kernel where
  torev : Capability
  swVmem : UInt64
  blank : Space
  cheriRevoke : Who → (Who → Space) → Who → Space
  res : WaitStatus
  strerror : Int → CString

inductive Parent where
  | mmap
  | fork1
  | wait1
  | unrevoked (pg : Page)
  | pipe
  | fork2
  | getShadow
  | msync
  | mincore
  | revoke
  | revoked (pg : Page)
  | write
  | wait2
  | munmap
  | close (fd : Nat)
  | ended (r : Report)

/-- The children stand at the same calls; `check` looks whether the page is revoked. -/
inductive Child where
  | unborn
  | getShadow
  | msync
  | mincore
  | revoke
  | read
  | check (revoked : Bool) (pg : Page)
  | ended (status : WaitStatus)

/-- `bytes` are those in the pipe. Both ends stay open in the second child, so its read
never sees an end of file. `res` is where both calls of `waitpid` put a status. -/
structure CowState where
  space : Who → Space
  bytes : Nat
  res : WaitStatus
  parent : Parent
  child1 : Child
  child2 : Child

inductive Outcome where
  /-- The call at hand succeeds. -/
  | goes
  | fails (errno : Int)
  /-- What `mincore` says of the first two pages. -/
  | incore (st : Page → UInt8)
  | killed (signo : Int)

structure CowEvent where
  who : Who
  outcome : Outcome

def MINCORE_INCORE : UInt8 := 1

def verifyFailure (cond : CString) : Report :=
  .failureErrx (some (cstr "'" ++ cond ++ cstr "' is FALSE!"))

namespace Kernel

def syscallFailure (k : Kernel) (call : CString) (errno : Int) : Report :=
  .failureErrc (some (cstr "Call '" ++ call ++ cstr "' failed")) (k.strerror errno)

/-- What the test puts into both pages. -/
def cap (k : Kernel) : Capability := k.torev.permsAnd (~~~k.swVmem)

end Kernel

def forkFailure (errno : Int) : Report :=
  .failureErrx (some (cstr "Fork failed; errno=" ++ fmtD errno))

def badExit (which : CString) (status : WaitStatus) : Report :=
  .failureErrx (some (cstr "Bad " ++ which ++ cstr " process exit: " ++ fmtD status.WEXITSTATUS))

namespace CowState

def setSpace (s : CowState) (w : Who) (sp : Space) : CowState :=
  { s with space := Function.update s.space w sp }

def goto (s : CowState) (pc : Parent) : CowState := { s with parent := pc }

def leave (s : CowState) (r : Report) : CowState := { s with parent := .ended r }

def isRevoked (s : CowState) (w : Who) (pg : Page) : Bool := checkRevoked ((s.space w).cap pg)

def quarantine (s : CowState) (w : Who) : CowState :=
  s.setSpace w { s.space w with quarantined := true }

/-- What the parent makes of `res`. -/
def judge (s : CowState) (which : CString) (next : Parent) : CowState :=
  if s.res.WIFEXITED = false ∨ s.res.WEXITSTATUS ≠ 0 then s.leave (badExit which s.res)
  else s.goto next

def parentGoes (k : Kernel) (s : CowState) : Option CowState :=
  match s.parent with
  | .mmap => some ((s.setSpace .parent ⟨fun _ => k.cap,(s.space .parent).quarantined⟩).goto .fork1)
  | .fork1 => some ({ s.setSpace .child1 (s.space .parent) with child1 := .getShadow }.goto .wait1)
  | .wait1 =>
    match s.child1 with
    | .ended st => some ({ s with res := st }.judge (cstr "child") (.unrevoked .first))
    | _ => none
  | .unrevoked pg =>
    some (if s.isRevoked .parent pg then
        s.leave (verifyFailure (cstr "!check_revoked(" ++ pg.name ++ cstr ")"))
      else s.goto (match pg with | .first => .unrevoked .second | .second => .pipe))
  | .pipe => some (s.goto .fork2)
  | .fork2 => some ({ s.setSpace .child2 (s.space .parent) with child2 := .read }.goto .getShadow)
  | .getShadow => some ((s.quarantine .parent).goto .msync)
  | .msync => some (s.goto .mincore)
  | .mincore => none
  | .revoke => some ({ s with space := k.cheriRevoke .parent s.space }.goto (.revoked .first))
  | .revoked pg =>
    some (if s.isRevoked .parent pg then
        s.goto (match pg with | .first => .revoked .second | .second => .write)
      else s.leave (verifyFailure (cstr "check_revoked(" ++ pg.name ++ cstr ")")))
  | .write => some ({ s with bytes := s.bytes+1 }.goto .wait2)
  | .wait2 =>
    match s.child2 with
    | .ended st => some ({ s with res := st }.judge (cstr "child 2") .munmap)
    | _ => none
  | .munmap => some (s.goto (.close 0))
  | .close fd => some (if fd = 0 then s.goto (.close 1) else s.leave .success)
  | .ended _ => none

/-- Nobody looks at what `waitpid` returns. -/
def parentFails (k : Kernel) (s : CowState) (errno : Int) : Option CowState :=
  match s.parent with
  | .mmap => some (s.leave (verifyFailure (cstr "block != MAP_FAILED")))
  | .fork1 | .fork2 => some (s.leave (forkFailure errno))
  | .wait1 => some (s.judge (cstr "child") (.unrevoked .first))
  | .wait2 => some (s.judge (cstr "child 2") .munmap)
  | .pipe => some (s.leave (k.syscallFailure (cstr "pipe(pd)") errno))
  | .getShadow => some (s.leave (k.syscallFailure (cstr "cheri_revoke_get_shadow( " ++
      cstr "CHERI_REVOKE_SHADOW_NOVMEM, torev, &shadow)") errno))
  | .msync => some (s.leave (k.syscallFailure
      (cstr "msync(cap1, CHERITEST_PAGE_SIZE, MS_INVALIDATE)") errno))
  | .mincore => some (s.leave (k.syscallFailure
      (cstr "mincore(block, 2 * CHERITEST_PAGE_SIZE, st)") errno))
  | .revoke => some (s.leave (k.syscallFailure (cstr "cheri_revoke( " ++
      cstr "CHERI_REVOKE_IGNORE_START | CHERI_REVOKE_LAST_PASS, 0, NULL)") errno))
  | .write => some (s.leave (verifyFailure (cstr "n == 1")))
  | .munmap => some (s.leave (k.syscallFailure (cstr "munmap(block, blocksz)") errno))
  | .close fd => some (s.leave (k.syscallFailure (cstr "close(pd[" ++ fmtD fd ++ cstr "])") errno))
  | _ => none

def parentIncore (s : CowState) (st : Page → UInt8) : Option CowState :=
  match s.parent with
  | .mincore =>
    some (if st .first &&& MINCORE_INCORE ≠ 0 then
        s.leave (verifyFailure (cstr "(st[0] & MINCORE_INCORE) == 0"))
      else if st .second &&& MINCORE_INCORE = 0 then
        s.leave (verifyFailure (cstr "(st[1] & MINCORE_INCORE) != 0"))
      else s.goto .revoke)
  | _ => none

def parentKilled (s : CowState) (signo : Int) : Option CowState :=
  match s.parent with
  | .ended _ => none
  | _ => some (s.leave (.exit (.signaled signo)))

def parentStep (k : Kernel) (s : CowState) : Outcome → Option CowState
  | .goes => s.parentGoes k
  | .fails errno => s.parentFails k errno
  | .incore st => s.parentIncore st
  | .killed signo => s.parentKilled signo

def child (s : CowState) : Who → Child
  | .child2 => s.child2
  | _ => s.child1

def setChild (s : CowState) (w : Who) (c : Child) : CowState :=
  match w with
  | .child2 => { s with child2 := c }
  | _ => { s with child1 := c }

end CowState

def exit (n : UInt8) : Child := .ended (.exited n)

/-- The code that a child exits with at a check. -/
def checkExit : Bool → Page → UInt8
  | true,.first => 7
  | true,.second => 8
  | false,.first => 5
  | false,.second => 6

/-- A step of a child: the spaces, the bytes in the pipe and its place behind it. -/
def childStep (k : Kernel) (sp : Who → Space) (bytes : Nat) (w : Who) (c : Child) :
    Outcome → Option ((Who → Space) × Nat × Child)
  | .goes =>
    match c with
    | .getShadow =>
      some (Function.update sp w { sp w with quarantined := true },bytes,.msync)
    | .msync => some (sp,bytes,.mincore)
    | .revoke => some (k.cheriRevoke w sp,bytes,.check true .first)
    | .read => if bytes = 0 then none else some (sp,bytes-1,.check false .first)
    | .check revoked pg =>
      some (sp,bytes,if checkRevoked ((sp w).cap pg) ≠ revoked then exit (checkExit revoked pg)
        else match pg with
          | .first => .check revoked .second
          | .second => exit 0)
    | _ => none
  | .fails _ =>
    match c with
    | .getShadow | .read => some (sp,bytes,exit 1)
    | .msync => some (sp,bytes,exit 2)
    | .mincore => some (sp,bytes,exit 3)
    | .revoke => some (sp,bytes,exit 6)
    | _ => none
  | .incore st =>
    match c with
    | .mincore =>
      some (sp,bytes,if st .first &&& MINCORE_INCORE ≠ 0 then exit 4 else .revoke)
    | _ => none
  | .killed signo =>
    match c with
    | .unborn | .ended _ => none
    | _ => some (sp,bytes,.ended (.signaled signo))

namespace CowState

def step (k : Kernel) (s : CowState) (e : CowEvent) : Option CowState :=
  match e.who with
  | .parent => s.parentStep k e.outcome
  | w =>
    (childStep k s.space s.bytes w (s.child w) e.outcome).map fun (sp,bytes,c) =>
      { s with space := sp, bytes := bytes }.setChild w c

def start (k : Kernel) : CowState := ⟨fun _ => k.blank,0,k.res,.mmap,.unborn,.unborn⟩

end CowState

end CheriOsTest.CowRevoke
