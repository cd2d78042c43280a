import CheriOsTest.Getopt
import CheriOsTest.Session
set_option autoImplicit false

/-! The front of `main`: the option loop, the checks of options against each other,
and what the process then does. An exec'd child runs the child function of one test. -/

namespace CheriOsTest.Harness
open CheriOsTest.CStrings CheriOsTest.Programs CheriOsTest.Getopt

/-- `struct cheri_test` with whether `ct_child_func` is set. -/
structure RegisteredTest extends CheriTest where
  ctChildFunc : Bool

def identChar (c : UInt8) : Bool :=
  (48 ≤ c && c ≤ 57) || (65 ≤ c && c ≤ 90) || c == 95 || (97 ≤ c && c ≤ 122)

/-- The tests of the program. `CHERIOSTEST` names each after its function. -/
structure Registry where
  tests : List RegisteredTest
  named : ∀ t ∈ tests, t.ctName ≠ [] ∧ ∀ c ∈ t.ctName, identChar c
  distinct : ∀ t ∈ tests, ∀ u ∈ tests, t.ctName = u.ctName → t = u

structure Settings where
  isExecedChild : Bool
  execedChildHasExtraArgv : Bool
  list : Bool
  runAll : Bool
  fastTestsOnly : Bool
  qtrace : Bool
  qtraceUserModeOnly : Bool
  sleepAfterTest : Bool
  coredumpEnabled : Bool
  debuggerEnabled : Bool
  glob : Bool
  xml : Bool
  verbose : Nat
  deriving DecidableEq

def Settings.initial : Settings :=
  ⟨false,false,false,false,false,false,false,false,false,false,false,false,0⟩

/-- The ways out before a test runs; `usage` comes after at most one warning. -/
inductive Leave where
  | usage : Option CString → Leave
  | err : Nat → CString → Leave
  | errx : Nat → CString → Leave
  deriving DecidableEq

def Leave.status : Leave → Nat
  | .usage _ => EX_USAGE
  | .err status _ => status
  | .errx status _ => status

def EINVAL : Nat := 22

/-- `-q`, and the end of `-Q`; the sysctl may fail. -/
def traceOption (qemuTracePerthread : Option Nat) (opt : UInt8) (s : Settings) :
    Except Leave Settings :=
  match qemuTracePerthread with
  | none => .error (.err EX_OSERR (cstr "sysctlbyname(\"hw.qemu_trace_perthread\")"))
  | some 0 => .error (.errx EX_USAGE
      (cstr "-" ++ [opt] ++ cstr " requires sysctl hw.qemu_trace_perthread=1"))
  | some _ => .ok { s with qtrace := true }

def noTraceOption : Leave :=
  .err EINVAL (cstr "-Q and -q are not yet implemented for Linux")

def setOption (os : OS) (qemuTracePerthread : Option Nat) (s : Settings) (opt : UInt8) :
    Except Leave Settings :=
  match Char.ofNat opt.toNat with
  | 'a' => .ok { s with runAll := true }
  | 'c' => .ok { s with coredumpEnabled := true }
  | 'd' => .ok { s with debuggerEnabled := true }
  | 'E' => .ok { s with isExecedChild := true }
  | 'f' => .ok { s with fastTestsOnly := true }
  | 'g' => .ok { s with glob := true }
  | 'K' => .ok { s with execedChildHasExtraArgv := true }
  | 'l' => .ok { s with list := true }
  | 'Q' =>
    match os with
    | .freeBSD => traceOption qemuTracePerthread opt { s with qtraceUserModeOnly := true }
    | .linux => .error noTraceOption
  | 'q' =>
    match os with
    | .freeBSD => traceOption qemuTracePerthread opt s
    | .linux => .error noTraceOption
  | 's' => .ok { s with sleepAfterTest := true }
  | 'v' => .ok { s with verbose := s.verbose+1 }
  | 'x' => .ok { s with xml := true }
  | _ => .error (.usage (some (cstr "unknown argument " ++ [opt] ++ cstr "\n")))

def optstring : CString := cstr "acdEfgKlQqsuvx"

inductive Task where
  | list
  | select : Selection → Task
  | child : RegisteredTest → Task

def warnUsage (msg : CString) : Leave := .usage (some msg)

def runChildName (tests : List RegisteredTest) (name : CString) : Except Leave RegisteredTest :=
  match tests.find? (fun ct => streq name ct.ctName) with
  | some ct =>
    if ct.ctChildFunc then .ok ct
    else .error (.errx EX_SOFTWARE (ct.ctName ++ cstr " has no child function"))
  | none => .error (.errx EX_USAGE (cstr "unknown test: " ++ name))

/-- What follows the option loop, with the arguments that it left. -/
def chooseTask (tests : List RegisteredTest) (s : Settings) (argv : List CString) :
    Except Leave Task := do
  failIf (s.execedChildHasExtraArgv ∧ ¬ s.isExecedChild) (warnUsage (cstr "-K requires -E"))
  failIf (s.isExecedChild ∧ (s.runAll ∨ s.glob ∨ s.list))
    (warnUsage (cstr "-E is incompatible with -a, -g, and -l"))
  failIf (s.isExecedChild ∧ argv.length ≠ 1 ∧ ¬ s.execedChildHasExtraArgv)
    (warnUsage (cstr "-E requires exactly one test argument"))
  failIf (s.runAll ∧ s.list) (warnUsage (cstr "-a and -l are incompatible"))
  failIf (s.runAll ∧ s.glob) (warnUsage (cstr "-a and -g are incompatible"))
  if s.list then
    failIf (argv ≠ []) (warnUsage (cstr "-l and a list of tests are incompatible"))
    pure .list
  else
    failIf (argv = [] ∧ ¬ s.runAll) (.usage none)
    failIf (argv ≠ [] ∧ s.runAll) (warnUsage (cstr "-a and a list of test are incompatible"))
    if s.isExecedChild then
      let ct ← runChildName tests (argv.headD [])
      pure (.child ct)
    else if s.runAll then pure (.select .all)
    else if s.glob then pure (.select (.globs argv))
    else pure (.select (.names argv))

/-- `main` up to the point where it starts on its task: the settings, the arguments
that the options left, and the task. libxo looks at the arguments first. -/
def start (os : OS) (qemuTracePerthread : Option Nat)
    (xoParseArgs : List CString → Option (List CString)) (tests : List RegisteredTest)
    (argv : List CString) : Except Leave (Settings × List CString × Task) :=
  match xoParseArgs argv with
  | none => .error (.errx 1 (cstr "xo_parse_args failed\n"))
  | some argv => do
    let (s,argv) ← options optstring (setOption os qemuTracePerthread) argv.tail .initial
    let task ← chooseTask tests s argv
    pure (s,argv,task)

theorem head_of_identifier {name : CString} (h : name ≠ [] ∧ ∀ c ∈ name, identChar c) :
    name.head? ≠ some dash := by
  intro hc
  cases name with
  | nil => cases hc
  | cons c cs =>
    cases hc
    exact absurd (h.2 dash List.mem_cons_self) (by decide)

theorem upToNul_identifier {name : CString} (h : ∀ c ∈ name, identChar c) :
    upToNul name = name := by
  refine upToNul_eq_self (fun c hc h₀ => ?_)
  have hid := h c hc
  rw [h₀] at hid
  exact absurd hid (by decide)

theorem Registry.runChildName_eq (reg : Registry) {t : RegisteredTest} (ht : t ∈ reg.tests)
    (hc : t.ctChildFunc) : runChildName reg.tests t.ctName = .ok t := by
  have hself : ∀ u ∈ reg.tests, streq t.ctName u.ctName ↔ t = u := by
    intro u hu
    rw [streq,upToNul_identifier (reg.named t ht).2,upToNul_identifier (reg.named u hu).2,
      beq_iff_eq]
    exact ⟨reg.distinct t ht u hu,fun h => by rw [h]⟩
  have hfind : reg.tests.find? (fun ct => streq t.ctName ct.ctName) = some t := by
    cases hf : reg.tests.find? (fun ct => streq t.ctName ct.ctName) with
    | none => exact absurd ((hself t ht).mpr rfl) (by simpa using List.find?_eq_none.mp hf t ht)
    | some u =>
      have hs := List.find?_some (p := fun ct : RegisteredTest => streq t.ctName ct.ctName) hf
      rw [(hself u (List.mem_of_find?_eq_some hf)).mp hs]
  rw [runChildName,hfind]
  exact if_pos hc

end CheriOsTest.Harness
