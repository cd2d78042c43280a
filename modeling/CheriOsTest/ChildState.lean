import CheriOsTest.CStrings
set_option autoImplicit false

/-! The page that the harness shares with the processes of a test, and the
status that `waitpid` hands back for its child. -/

namespace CheriOsTest.Harness
open CheriOsTest.CStrings

def EX_USAGE : Nat := 64
def EX_SOFTWARE : Nat := 70
def EX_OSERR : Nat := 71

def TESTRESULT_STR_LEN : Nat := 1024

def TESTRESULT_UNKNOWN : Int := 0
def TESTRESULT_SUCCESS : Int := 1
def TESTRESULT_FAILURE : Int := 2

/-- A `void *` with everything that `cheri_ptr_equal_exact` compares. -/
structure Pointer where
  tag : Bool
  address : UInt64
  metadata : UInt64
  deriving DecidableEq, Repr

def cheriPtrEqualExact (p q : Pointer) : Bool := decide (p = q)

def Pointer.null : Pointer := ⟨false,0,0⟩

/-- `struct cheriostest_child_state`. -/
structure ChildState where
  ccsSignum : Int
  ccsSiCode : Int
  ccsSiTrapno : Int
  ccsSiAddr : Pointer
  ccsSiAddrTag : Bool
  ccsTestresult : Int
  ccsTestresultStr : Vector UInt8 TESTRESULT_STR_LEN
  ccsSiAddrExpected : Pointer
  ccsSiAddrExpectedTag : Bool
  ccsWarn : Bool

/-- `bzero(ccsp, sizeof(*ccsp))`. -/
def ChildState.zeroed : ChildState where
  ccsSignum := 0
  ccsSiCode := 0
  ccsSiTrapno := 0
  ccsSiAddr := .null
  ccsSiAddrTag := false
  ccsTestresult := TESTRESULT_UNKNOWN
  ccsTestresultStr := .replicate TESTRESULT_STR_LEN 0
  ccsSiAddrExpected := .null
  ccsSiAddrExpectedTag := false
  ccsWarn := false

inductive WaitStatus where
  | exited : UInt8 → WaitStatus
  | signaled : Int → WaitStatus
  | stopped : Int → WaitStatus
  | continued : WaitStatus
  deriving DecidableEq, Repr

namespace WaitStatus

def WIFEXITED : WaitStatus → Bool
  | .exited _ => true
  | _ => false

/-- Read only after `WIFEXITED`. -/
def WEXITSTATUS : WaitStatus → Nat
  | .exited n => n.toNat
  | _ => 0

def WIFSIGNALED : WaitStatus → Bool
  | .signaled _ => true
  | _ => false

def WTERMSIG : WaitStatus → Int
  | .signaled n => n
  | _ => 0

end WaitStatus
end CheriOsTest.Harness
