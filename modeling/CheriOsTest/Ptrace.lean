import CheriOsTest.ChildState
import CheriOsTest.Lenses
import CheriOsTest.LoggedCalls
import CheriOsTest.Quarantine
set_option autoImplicit false

/-! The tests that write the registers of a stopped child with `PTRACE_SETREGSET`: the one for
RISC-V, and its sibling for Morello. The kernel is a parameter and may answer anything. -/

namespace CheriOsTest.Ptrace
open CheriOsTest.CStrings CheriOsTest.Harness CheriOsTest.Lenses CheriOsTest.LoggedCalls
open CheriOsTest.Programs CheriOsTest.Quarantine CheriOsTest.Revoke

abbrev Pid := {p : Int // 0 < p}

/-- The kernel over its states `σ`, for register sets `R`: what the calls of the parent return.
`fork` gives no child where it returns -1, and `getRegset` is handed the buffer. -/
structure Kernel (σ R : Type) where
  fork : σ → Option Pid × σ
  waitpid : Pid → σ → (Int × WaitStatus) × σ
  getRegset : Pid → R → σ → (Int × R) × σ
  setRegset : Pid → R → σ → Int × σ
  ptContinue : Pid → σ → Int × σ
  errno : σ → Int

/-- What a call has returned, with the register set that it filled or was given, the state
in which a wait leaves the child, and the state from which the child is resumed. -/
inductive Event (σ R : Type) where
  | fork : Option Pid → Event σ R
  | wait : Pid → Int → WaitStatus → σ → Event σ R
  | get : Int → R → Event σ R
  | set : Int → R → Event σ R
  | resume : Pid → Int → σ → Event σ R

inductive End where
  | success
  | failure : Stop → End

abbrev Test (σ R : Type) := Program End σ (Event σ R)

variable {σ R : Type} {w : Nat}

def check {α : Type} (x : Except Stop α) : Test σ R α := orLeave .failure x

def cheriostestSuccess : Test σ R Unit := throw .success

def fork (k : Kernel σ R) : Test σ R (Option Pid) := call k.fork fun _ fpid _ => .fork fpid

def waitpid (k : Kernel σ R) (pid : Pid) : Test σ R (Int × WaitStatus) :=
  call (k.waitpid pid) fun _ ret s => .wait pid ret.1 ret.2 s

def ptraceGetregset (k : Kernel σ R) (pid : Pid) (buf : R) : Test σ R (Int × R) :=
  call (k.getRegset pid buf) fun _ ret _ => .get ret.1 ret.2

def ptraceSetregset (k : Kernel σ R) (pid : Pid) (regs : R) : Test σ R Int :=
  call (k.setRegset pid regs) fun _ ret _ => .set ret regs

def ptContinue (k : Kernel σ R) (pid : Pid) : Test σ R Int :=
  call (k.ptContinue pid) fun s ret _ => .resume pid ret s

def WIFSTOPPED : WaitStatus → Bool
  | .stopped _ => true
  | _ => false

def forkChild (k : Kernel σ R) : Test σ R Pid := do
  let fpid ← fork k
  match fpid with
  | none =>
    let r ← get
    check (.error (.errx (cstr "Could not fork: errno=" ++ fmtD (k.errno r.state))))
  | some pid =>
    let (wpid,status) ← waitpid k pid
    check (verifyCond (wpid = pid.val) (cstr "wpid == fpid"))
    check (verifyCond (WIFSTOPPED status) (cstr "WIFSTOPPED(status)"))
    pure pid

def finishChild (k : Kernel σ R) (pid : Pid) : Test σ R Unit := do
  let ret ← ptContinue k pid
  check (verifyCond (ret = 0) (cstr "ptrace(PT_CONTINUE, pid, (caddr_t)1, 0) == 0"))
  let (wpid,status) ← waitpid k pid
  check (verifyCond (wpid = pid.val) (cstr "wpid == pid"))
  check (verifyCond status.WIFEXITED (cstr "WIFEXITED(status)"))

/-- Where a register set has what a test works on: the register that it writes, the bitmap of
tags with this register's bit, and the bits that the test saves, sets, checks and clears. -/
structure Layout (R : Type) (w : Nat) where
  zeroed : R
  pcc : R → BitVec 128
  reg : Lens R (BitVec 128)
  tags : Lens R (BitVec w)
  apart : reg.Apart tags
  tagBit : Fin w
  savedBit : Fin w
  setBit : Fin w
  checkedBit : Fin w
  clearedBit : Fin w
  regset : CString
  regName : CString

/-- `c5_old_val`, `c5_old_tag` and `c5_new_val`. -/
structure Saved where
  oldVal : BitVec 128
  oldTag : BitVec 8
  newVal : BitVec 128

namespace Layout

variable (l : Layout R w)

def tag (regs : R) : Bool := (Lens.bit l.tagBit).get (l.tags.get regs)

def save (regs : R) : Saved where
  oldVal := l.reg.get regs
  oldTag := ((l.tags.get regs >>> l.savedBit.val) &&& 1#w).setWidth 8
  newVal := l.pcc regs

/-- The register set with the capability of the program counter in the register. -/
def forged (regs : R) : R :=
  let regs := l.reg.set (l.pcc regs) regs
  l.tags.set (l.tags.get regs ||| 1#w <<< l.setBit.val) regs

def restored (saved : Saved) (regs : R) : R :=
  let regs := l.reg.set saved.oldVal regs
  if saved.oldTag = 0 then
    l.tags.set (l.tags.get regs &&& ~~~(1#w <<< l.clearedBit.val)) regs
  else regs

end Layout

def EPERM : Int := 1

def Layout.call (l : Layout R w) (request iov : String) : CString :=
  cstr "ptrace(" ++ cstr request ++ cstr ", pid, " ++ l.regset ++ cstr ", " ++ cstr iov ++ cstr ")"

def checkRegset (l : Layout R w) (request iov : String) (ret : Int) : Test σ R Unit := do
  let _ ← check (checkSyscall (l.call request iov) (if ret = -1 then none else some ret))

/-- From the stopped child to the write; also what the write has returned. -/
def saveAndWrite (l : Layout R w) (k : Kernel σ R) (pid : Pid) : Test σ R (Saved × Int) := do
  let (ret,getRegs) ← ptraceGetregset k pid l.zeroed
  checkRegset l "PTRACE_GETREGSET" "&get_iov" ret
  let ret ← ptraceSetregset k pid (l.forged getRegs)
  pure (l.save getRegs,ret)

/-- From the write to the end. -/
def checkAndRestore (l : Layout R w) (k : Kernel σ R) (pid : Pid) (saved : Saved) (ret : Int) :
    Test σ R Unit := do
  check (verify (ret ≠ -EPERM) (cstr ("PTRACE_POKECAP is only allowed if " ++
    "the sysctl cheri.ptrace_forge_cap is set")))
  let (ret,getRegs) ← ptraceGetregset k pid l.zeroed
  checkRegset l "PTRACE_GETREGSET" "&get_iov" ret
  check (verify (l.reg.get getRegs = saved.newVal) (l.regName ++ cstr " wasn't set"))
  check (verify ((l.tags.get getRegs >>> l.checkedBit.val) &&& 1#w = 1#w) (cstr "Tag wasn't set"))
  let ret ← ptraceSetregset k pid (l.restored saved getRegs)
  checkRegset l "PTRACE_SETREGSET" "&set_iov" ret
  finishChild k pid
  cheriostestSuccess

/-- `struct user_morello_state`, with `k` registers that the test does not name. -/
structure UserMorelloState (k : Nat) where
  cregs : Vector (BitVec 128) 31
  pcc : BitVec 128
  others : Vector (BitVec 128) k
  tagMap : BitVec 64

def morello (k : Nat) : Layout (UserMorelloState k) 64 where
  zeroed := ⟨.replicate 31 0,0,.replicate k 0,0⟩
  pcc := UserMorelloState.pcc
  reg := {
    get regs := regs.cregs.get 0
    set v regs := { regs with cregs := regs.cregs.set 0 v }
    get_set _ _ := Vector.getElem_set_self (by decide)
    set_get regs := by
      simp [Vector.get_eq_getElem]
    set_set _ _ _ := by
      simp [Vector.set_set] }
  tags := {
    get := UserMorelloState.tagMap
    set v regs := { regs with tagMap := v }
    get_set _ _ := rfl
    set_get _ := rfl
    set_set _ _ _ := rfl }
  apart _ _ _ := rfl
  tagBit := 0
  savedBit := 0
  setBit := 0
  checkedBit := 0
  clearedBit := 0
  regset := cstr "(void *)(uintptr_t)NT_ARM_MORELLO"
  regName := cstr "c0"

def ptraceSetcapregsMorello {n : Nat} (k : Kernel σ (UserMorelloState n)) :
    Test σ (UserMorelloState n) Unit := do
  let pid ← forkChild k
  let (saved,ret) ← saveAndWrite (morello n) k pid
  checkAndRestore (morello n) k pid saved ret

/-- `elf_gregset_t`: the program counter, 31 registers, one more, and the bitmap of tags. -/
abbrev ElfGregset := Vector (BitVec 128) 34

/-- The tag is saved from the bit of the program counter. -/
def riscv : Layout ElfGregset 128 where
  zeroed := .replicate 34 0
  pcc regs := regs.get 0
  reg := Lens.index 5
  tags := Lens.index 33
  apart := Lens.index_apart (by decide)
  tagBit := 5
  savedBit := 0
  setBit := 5
  checkedBit := 5
  clearedBit := 5
  regset := cstr "(void *) NT_PRSTATUS"
  regName := cstr "c5"

/-- What the calls of `fgets` with a buffer of `size` bytes read, one after the other; `acc` is
the line so far, and `room` what fits behind it. -/
def fgetsFrom (size : Nat) : List UInt8 → Nat → List UInt8 → List (List UInt8)
  | acc, _, [] => if acc = [] then [] else [acc]
  | acc, room, c :: cs =>
    if c = 10 ∨ room = 1 then (acc ++ [c]) :: fgetsFrom size [] (size-1) cs
    else fgetsFrom size (acc ++ [c]) (room-1) cs

def isRunningOnQemu (model : List UInt8) : Bool :=
  (fgetsFrom 1024 [] 1023 model).any fun buf => decide (cstr "qemu" <:+: upToNul buf)

/-- Whether `__riscv_zcheripurecap` is defined, and the file that names the model if there is one. -/
structure Machine where
  zcheripurecap : Bool
  model : Option (List UInt8)

def Machine.checkQemu (m : Machine) : Except Stop Unit :=
  if m.zcheripurecap then
    match m.model with
    | none => .error .fault
    | some model => failIf (isRunningOnQemu model) (.errx (cstr ("This test case wasn't executed " ++
        "because it crashes Qemu")))
  else .ok ()

/-- The test reports its success between the write and the code that checks it. -/
def ptraceSetcapregsRiscv (m : Machine) (k : Kernel σ ElfGregset) : Test σ ElfGregset Unit := do
  check m.checkQemu
  let pid ← forkChild k
  let (saved,ret) ← saveAndWrite riscv k pid
  cheriostestSuccess
  checkAndRestore riscv k pid saved ret

end CheriOsTest.Ptrace
