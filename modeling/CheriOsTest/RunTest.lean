import CheriOsTest.ChildState
import CheriOsTest.DescriptorTable
import CheriOsTest.Programs
set_option autoImplicit false

/-! `cheriostest_run_test`. One call takes a test, what the outside world answers
during the call, and the counters; it ends with a verdict or leaves the program. -/

namespace CheriOsTest.Harness
open CheriOsTest.CStrings CheriOsTest.Programs

def CT_FLAG_SIGNAL : UInt32 := 0x1
def CT_FLAG_SI_TRAPNO : UInt32 := 0x2
def CT_FLAG_STDOUT_STRING : UInt32 := 0x8
def CT_FLAG_STDIN_STRING : UInt32 := 0x10
def CT_FLAG_STDOUT_IGNORE : UInt32 := 0x20
def CT_FLAG_SLOW : UInt32 := 0x40
def CT_FLAG_SI_CODE : UInt32 := 0x200
def CT_FLAG_SIGEXIT : UInt32 := 0x400
def CT_FLAG_SI_ADDR : UInt32 := 0x800

/-- `struct cheri_test`. Of its two check functions only whether they are set is
kept; what a call of them returns is the world's. -/
structure CheriTest where
  ctName : CString
  ctCheckSkip : Bool
  ctCheckXfail : Bool
  ctFlags : UInt32
  ctSignum : Int
  ctSiCode : Int
  ctSiTrapno : Int
  ctStdinString : CString
  ctStdoutString : CString
  ctXfailReason : Option CString
  ctFlakyReason : Option CString
  deriving DecidableEq

def CheriTest.has (t : CheriTest) (flag : UInt32) : Bool := t.ctFlags &&& flag != 0

inductive OS where
  | freeBSD
  | linux
  deriving DecidableEq

structure Options where
  fastTestsOnly : Bool
  verbose : Nat

/-- The library functions whose text the harness only passes on. -/
structure Libc where
  strnvis : Nat → CString → CString
  fmtPtr : Pointer → CString

/-- What one call meets outside: the answers of the test's checks and of the
system calls, and the shared page once the child has ended. A failed `write` or
`read` carries its errno. -/
structure World where
  checkSkip : Option CString
  checkXfail : Option CString
  pipeStdin : Option (Int × Int)
  pipeStdout : Option (Int × Int)
  write : Except Int Int
  fork : Bool
  fcntl : Bool
  waitpid : Option WaitStatus
  page : ChildState
  stdout : Except Int (List UInt8)

/-- The local variables that some path reads before it has set them. -/
structure Locals where
  status : WaitStatus
  pipefdStdin : Int × Int
  pipefdStdout : Int × Int
  flakyReason : Option CString

inductive XoCall where
  | openInstance : CString → XoCall
  | closeInstance : CString → XoCall
  deriving DecidableEq

/-- The static variables of the harness, its libxo calls and its open descriptors. -/
structure Globals where
  testsRun : Nat
  testsSkipped : Nat
  testsFailed : Nat
  testsPassed : Nat
  testsXfailed : Nat
  testsXpassed : Nat
  expectedFailures : Nat
  cheriSkippedTests : List CString
  cheriFailedTests : List CString
  cheriXfailedTests : List CString
  cheriXpassedTests : List CString
  cheriTestWarnings : List CString
  xo : List XoCall
  fds : DescriptorTable.Table Int

/-- `filtered` is the silent return of the fast filter. -/
inductive Verdict where
  | filtered
  | skip
  | pass
  | xpass
  | fail
  | xfail
  deriving DecidableEq, Repr

/-- What `goto fail` carries: the text, and whether the reasons were set to NULL. -/
structure Failure where
  reason : CString
  cleared : Bool

/-- `snprintf(reason, sizeof(reason), ..)`. -/
def reasonf (s : CString) : CString := snprintf (TESTRESULT_STR_LEN*2) s

def failure (s : CString) : Failure := ⟨reasonf s,false⟩

/-- A test harness error is always fatal: neither reason survives it. -/
def harnessError (s : CString) : Failure := ⟨reasonf s,true⟩

def disallowedPrefixes : List CString := [cstr "cheriostest_",cstr "test_"]

def disallowedPrefix (name : CString) : Option CString :=
  disallowedPrefixes.find? (fun p => p.isPrefixOf name)

def skipReason (t : CheriTest) (w : World) : Option CString :=
  if t.ctCheckSkip then w.checkSkip else none

def xfailReason (t : CheriTest) (w : World) : Option CString :=
  if t.ctCheckXfail then w.checkXfail else t.ctXfailReason

def writeStdin (t : CheriTest) (w : World) : Except Failure Unit :=
  if t.has CT_FLAG_STDIN_STRING then
    match w.write with
    | .error errno => .error (failure
        (cstr "write() on test stdin failed with -1 (" ++ fmtD errno ++ cstr ")"))
    | .ok len => failIf (len ≠ t.ctStdinString.length) (failure
        (cstr "write() on test stdin expected " ++ fmtD t.ctStdinString.length ++
          cstr " but got " ++ fmtD len))
  else .ok ()

/-- The text a failing test has left; the last byte of the array is overwritten first. -/
def testFailure (page : ChildState) : Failure :=
  ⟨upToNul (page.ccsTestresultStr.toList.take (TESTRESULT_STR_LEN-1)),false⟩

def checkSigexit (t : CheriTest) (status : WaitStatus) : Except Failure Unit := do
  failIf (¬ status.WIFSIGNALED) (failure
    (cstr "Expected child termination with signal " ++ fmtD t.ctSignum))
  failIf (status.WTERMSIG ≠ t.ctSignum) (failure
    (cstr "Expected child termination with signal " ++ fmtD t.ctSignum ++
      cstr "; got " ++ fmtD status.WTERMSIG))

def checkExit (status : WaitStatus) : Except Failure Unit := do
  failIf status.WIFSIGNALED (failure
    (cstr "Child exited with signal " ++ fmtD status.WTERMSIG))
  failIf (¬ status.WIFEXITED) (failure (cstr "Child exited abnormally"))
  failIf (status.WEXITSTATUS ≠ 0 ∧ status.WEXITSTATUS ≠ EX_SOFTWARE) (failure
    (cstr "Child status " ++ fmtD status.WEXITSTATUS))

def checkSignal (lc : Libc) (os : OS) (t : CheriTest) (page : ChildState) :
    Except Failure Unit := do
  failIf (page.ccsSignum < 0) (failure
    (cstr "Child returned negative signal " ++ fmtD page.ccsSignum))
  failIf (t.has CT_FLAG_SIGNAL ∧ page.ccsSignum ≠ t.ctSignum) (failure
    (cstr "Expected signal " ++ fmtD t.ctSignum ++ cstr ", got " ++ fmtD page.ccsSignum))
  failIf (t.has CT_FLAG_SI_CODE ∧ page.ccsSiCode ≠ t.ctSiCode) (failure
    (cstr "Expected si_code " ++ fmtD t.ctSiCode ++ cstr ", got " ++ fmtD page.ccsSiCode))
  failIf (os = .freeBSD ∧ t.has CT_FLAG_SI_TRAPNO ∧ page.ccsSiTrapno ≠ t.ctSiTrapno) (failure
    (cstr "Expected si_trapno " ++ fmtD t.ctSiTrapno ++ cstr ", got " ++
      fmtD page.ccsSiTrapno))
  failIf (t.has CT_FLAG_SI_ADDR ∧
      (¬ cheriPtrEqualExact page.ccsSiAddrExpected page.ccsSiAddr ∨
        page.ccsSiAddrExpectedTag ≠ page.ccsSiAddrTag)) (failure
    (cstr "Expected si_addr " ++ lc.fmtPtr page.ccsSiAddrExpected ++ cstr " with tag = " ++
      fmtD page.ccsSiAddrExpectedTag.toNat ++ cstr ", got " ++ lc.fmtPtr page.ccsSiAddr ++
      cstr " with tag = " ++ fmtD page.ccsSiAddrTag.toNat))

def checkResult (t : CheriTest) (page : ChildState) : Except Failure Unit :=
  if t.has CT_FLAG_SIGNAL then .ok ()
  else do
    failIf (page.ccsSignum ≠ 0) (failure
      (cstr "Test received unexpected signal " ++ fmtD page.ccsSignum))
    failIf (page.ccsTestresult = TESTRESULT_UNKNOWN) (harnessError
      (cstr "Test failed to set a success/failure status"))
    failIf (page.ccsTestresult ≠ TESTRESULT_SUCCESS) (harnessError
      (cstr "Test returned unexpected result (" ++ fmtD page.ccsTestresult ++ cstr ")"))

def TEST_BUFFER_LEN : Nat := 1024

/-- `read(pipefd_stdout[0], buffer, sizeof(buffer) - 1)`. -/
def readStdout (w : World) : Except Int (List UInt8) :=
  w.stdout.map (fun bs => bs.take (TEST_BUFFER_LEN-1))

def checkStdout (o : Options) (t : CheriTest) (w : World) : Except Failure Unit :=
  if t.has CT_FLAG_STDOUT_STRING then
    match readStdout w with
    | .error errno => .error (failure
        (cstr "read() on test stdout failed with -1 (" ++ fmtD errno ++ cstr ")"))
    | .ok buffer => failIf (¬ streq buffer t.ctStdoutString) (failure
        (if o.verbose ≠ 0 then
          cstr "read() on test stdout expected '" ++ t.ctStdoutString ++ cstr "' but got '" ++
            upToNul buffer ++ cstr "'"
        else cstr "read() on test stdout did not match"))
  else if t.has CT_FLAG_STDOUT_IGNORE then .ok ()
  else
    match readStdout w with
    | .error _ => .ok ()
    | .ok buffer => failIf (0 < buffer.length) (failure
        (if o.verbose ≠ 0 then
          cstr "read() on test stdout produced unexpected output '" ++ upToNul buffer ++
            cstr "'"
        else cstr "read() on test stdout produced unexpected output"))

/-- From the return of `waitpid` to the label `pass` or `fail`. -/
def checkChild (lc : Libc) (os : OS) (o : Options) (t : CheriTest) (w : World)
    (status : WaitStatus) : Except Failure Unit := do
  failIf (w.page.ccsTestresult = TESTRESULT_FAILURE) (testFailure w.page)
  if t.has CT_FLAG_SIGEXIT then checkSigexit t status
  else do
    checkExit status
    checkSignal lc os t w.page
    checkResult t w.page
    checkStdout o t w

def nameColon (t : CheriTest) (s : CString) : CString := t.ctName ++ cstr ": " ++ s

namespace Globals

def xoOpenInstance (g : Globals) : Globals :=
  { g with xo := g.xo ++ [.openInstance (cstr "testcase")] }

def xoCloseInstance (g : Globals) : Globals :=
  { g with xo := g.xo ++ [.closeInstance (cstr "testcase")] }

def opened (g : Globals) (p : Int × Int) : Globals :=
  { g with fds := g.fds.pipe p }

def close (g : Globals) (fd : Int) : Globals := { g with fds := g.fds.close fd }

def skipped (g : Globals) (t : CheriTest) (reason : CString) : Globals :=
  { g with
    testsSkipped := g.testsSkipped+1
    cheriSkippedTests := g.cheriSkippedTests ++ [nameColon t reason] }

def expect (g : Globals) (xfail : Option CString) : Globals :=
  if xfail.isSome then { g with expectedFailures := g.expectedFailures+1 } else g

def warned (lc : Libc) (g : Globals) (t : CheriTest) (page : ChildState) : Globals :=
  if page.ccsWarn then
    { g with cheriTestWarnings := g.cheriTestWarnings ++ [nameColon t
        (lc.strnvis (TESTRESULT_STR_LEN*2*4) (upToNul page.ccsTestresultStr.toList))] }
  else g

end Globals

def passTail (lc : Libc) (t : CheriTest) (page : ChildState) (xfail : Option CString)
    (g : Globals) : Verdict × Globals :=
  match xfail with
  | some reason => (.xpass,Globals.warned lc { g with
      testsXpassed := g.testsXpassed+1
      cheriXpassedTests := g.cheriXpassedTests ++ [nameColon t reason] } t page)
  | none => (.pass,Globals.warned lc { g with testsPassed := g.testsPassed+1 } t page)

def visreason (lc : Libc) (reason : CString) : CString :=
  lc.strnvis (TESTRESULT_STR_LEN*2*4) reason

def failTail (lc : Libc) (t : CheriTest) (reason : CString) (xfail flaky : Option CString)
    (g : Globals) : Verdict × Globals :=
  let message := nameColon t (visreason lc reason)
  if xfail.isNone && flaky.isNone then
    (.fail,{ g with
      testsFailed := g.testsFailed+1
      cheriFailedTests := g.cheriFailedTests ++ [message] })
  else
    (.xfail,{ g with
      -- a set xfail reason was counted before the pipes were made
      expectedFailures := g.expectedFailures+(if xfail.isNone then 1 else 0)
      testsXfailed := g.testsXfailed+1
      cheriXfailedTests := g.cheriXfailedTests ++ [message] })

def doReturn (stdin1 stdout0 : Int) (r : Verdict × Globals) : Verdict × Globals :=
  (r.1,(r.2.xoCloseInstance.close stdin1).close stdout0)

def afterChild (lc : Libc) (os : OS) (o : Options) (t : CheriTest) (w : World)
    (status : WaitStatus) (g : Globals) : Verdict × Globals :=
  match checkChild lc os o t w status with
  | .ok () => passTail lc t w.page (xfailReason t w) g
  | .error f => failTail lc t f.reason
      (if f.cleared then none else xfailReason t w)
      (if f.cleared then none else t.ctFlakyReason) g

/-- `err(EX_OSERR, ..)` unless the system call succeeded. -/
def orOsErr {α : Type} : Option α → Except Nat α
  | some a => .ok a
  | none => .error EX_OSERR

/-- The part of `cheriostest_run_test` that follows the fast filter and the skip check. -/
def forkTest (lc : Libc) (os : OS) (o : Options) (t : CheriTest) (w : World) (l : Locals)
    (g : Globals) : Except Nat (Verdict × Globals) := do
  let g := g.expect (xfailReason t w)
  let pipefdStdin ← orOsErr w.pipeStdin
  let pipefdStdout ← orOsErr w.pipeStdout
  let g := (g.opened pipefdStdin).opened pipefdStdout
  match writeStdin t w with
  | .error f => .ok (doReturn pipefdStdin.2 pipefdStdout.1
      (failTail lc t f.reason (xfailReason t w) t.ctFlakyReason g))
  | .ok () => do
    failIf (¬ w.fork) EX_OSERR
    let g := (g.close pipefdStdin.1).close pipefdStdout.2
    failIf (¬ w.fcntl) EX_OSERR
    let g := { g with testsRun := g.testsRun+1 }
    -- a failed waitpid leaves status as it was
    let status := w.waitpid.getD l.status
    .ok (doReturn pipefdStdin.2 pipefdStdout.1 (afterChild lc os o t w status g))

/-- `cheriostest_run_test`; the error of a run that leaves the program is its status. -/
def runTest (lc : Libc) (os : OS) (o : Options) (t : CheriTest) (w : World) (l : Locals)
    (g : Globals) : Except Nat (Verdict × Globals) :=
  let g := g.xoOpenInstance
  match disallowedPrefix t.ctName with
  | some p =>
    -- flaky_reason and both pipes are read before they are set
    .ok (doReturn l.pipefdStdin.2 l.pipefdStdout.1
      (failTail lc t (reasonf (cstr "test name begins with disallowed prefix '" ++ p ++ cstr "'"))
        none l.flakyReason g))
  | none =>
    if o.fastTestsOnly && t.has CT_FLAG_SLOW then .ok (.filtered,g)
    else
      match skipReason t w with
      | some reason => .ok (.skip,(g.skipped t reason).xoCloseInstance)
      | none => forkTest lc os o t w l g

end CheriOsTest.Harness
