import CheriOsTest.FeaturePatch
import CheriOsTest.Reports
set_option autoImplicit false

/-! Revocation control. The build makes six helpers of one program, some with the note that
the tool sets; ten tests exec them, some after a `procctl`, and compare what they answer. -/

namespace CheriOsTest.RevocationCtl
open CheriOsTest.CStrings CheriOsTest.Harness

/-- The arguments of `PROC_CHERI_REVOKE_CTL`. -/
inductive RevokeCtl where
  | forceEnable
  | forceDisable
  deriving DecidableEq, Repr

structure Program where
  file : List UInt8
  setuid : Bool

/-- The tests run from either of these. -/
inductive Tree where
  | build
  | installed
  deriving DecidableEq, Repr

def helperPath (dir name : CString) : CString := dir ++ cstr "/" ++ name

/-- Only the rule that installs a variant looks for `_suid`. -/
def addMallocRevokeEnabledVariant (tree : Tree) (libexec elfctl : CString) (target : List UInt8)
    (name features : CString) : Except Elf.Exit (CString × Program) := do
  let setuid := decide (tree = .installed ∧ cstr "_suid" <:+: name)
  if features = [] then pure (name,⟨target,setuid⟩)
  else do
    let run := Elf.main ⟨true,true⟩ [elfctl,features,helperPath libexec name] target
    let _ ← run.exit
    pure (name,⟨run.file,setuid⟩)

def variants : List (CString × CString) :=
  [(cstr "malloc_revoke_enabled_elfnote_disable",cstr "+nocherirevoke"),
    (cstr "malloc_revoke_enabled_elfnote_enable",cstr "+cherirevoke"),
    (cstr "malloc_revoke_enabled_suid",[]),
    (cstr "malloc_revoke_enabled_suid_elfnote_disable",cstr "+nocherirevoke"),
    (cstr "malloc_revoke_enabled_suid_elfnote_enable",cstr "+cherirevoke")]

/-- Everything that the build puts into its libexec directory, by name. -/
def helpers (tree : Tree) (libexec elfctl : CString) (target : List UInt8) :
    Except Elf.Exit (List (CString × Program)) := do
  let made ← variants.mapM fun v =>
    addMallocRevokeEnabledVariant tree libexec elfctl target v.1 v.2
  pure ((cstr "malloc_revoke_enabled",⟨target,false⟩) :: made)

/-- What the tests meet. `execve` says how the process ends when the program at the path runs
after that `procctl`, or that the call fails; a failed `procctl` carries its error text. The
`waitpid` for the child always gets its status. -/
structure Kernel where
  abi : Abi
  featurePresent : Bool
  runtimeRevocationDefault : Option Int
  fstypename : Option CString
  fork : Bool
  procctl : RevokeCtl → Except CString Unit
  execve : Option RevokeCtl → CString → Option WaitStatus

def skipNeedCheriRevoke (k : Kernel) : Option CString :=
  if k.featurePresent then none else some (cstr "Kernel does not support revocation")

def skipNeedDefaultCheriRevoke (k : Kernel) : Option CString :=
  match k.runtimeRevocationDefault with
  | none => some (cstr "System does not support revocation")
  | some value => if value = 0 then some (cstr "System disables revocation") else none

def Kernel.p9fs (k : Kernel) : Bool := k.fstypename.any (streq · (cstr "p9fs"))

def skipNeedSuidHelpersAndCheriRevoke (k : Kernel) : Option CString :=
  match skipNeedCheriRevoke k,k.fstypename with
  | some reason,_ => some reason
  | none,none => some (cstr "could not statfs the helper directory")
  | none,some _ =>
    if k.p9fs then some (cstr "helpers are on p9fs, which ignores the setuid bit") else none

def SIGABRT : Int := 6

def procctlFailure (strerror : CString) : Report :=
  .failureErrc (some (cstr "Call 'procctl(P_PID, getpid(), PROC_CHERI_REVOKE_CTL, " ++
    cstr "procctl_arg)' failed")) strerror

def execReport (k : Kernel) (procctlArg : Option RevokeCtl) (progpath : CString) : Report :=
  match k.execve procctlArg progpath with
  | some status => .exit status
  | none => .exit (.signaled SIGABRT)

/-- The forked child. -/
def childReport (k : Kernel) (progpath : CString) : Option RevokeCtl → Report
  | none => execReport k none progpath
  | some arg =>
    match k.procctl arg with
    | .error strerror => procctlFailure strerror
    | .ok () => execReport k (some arg) progpath

def childIsRevoking (res : WaitStatus) : Except Report Bool :=
  if res.WIFEXITED then .ok (decide (res.WEXITSTATUS = 0))
  else .error (.failureErrx (some (cstr "child exec failed")))

def parentReport (res : WaitStatus) (shouldBeRevoking : Bool) : Report :=
  match childIsRevoking res with
  | .error r => r
  | .ok revoking =>
    if revoking = shouldBeRevoking then .success
    else if shouldBeRevoking then
      .failureErrx (some (cstr "child is not revoking and should be"))
    else .failureErrx (some (cstr "child is revoking and should not be"))

def applied (abi : Abi) (r : Report) (page : ChildState) : ChildState :=
  (r.stores abi).foldl Store.apply page

/-- The parent waits for its child, so that its stores come last. -/
def mallocRevocationCtlCommonProcctl (k : Kernel) (helperDir progname : CString)
    (shouldBeRevoking : Bool) (procctlArg : Option RevokeCtl) : ChildState × WaitStatus :=
  if k.fork then
    let child := childReport k (helperPath helperDir progname) procctlArg
    let parent := parentReport child.status shouldBeRevoking
    (applied k.abi parent (applied k.abi child .zeroed),parent.status)
  else
    let parent := Report.failureErrx (some (cstr "'pid >= 0' is FALSE!"))
    (applied k.abi parent .zeroed,parent.status)

/-- What `CHERIOSTEST` declares of a test, and the arguments of the call that is its body. -/
structure CtlTest where
  name : CString
  checkSkip : Kernel → Option CString
  progname : CString
  shouldBeRevoking : Bool
  procctlArg : Option RevokeCtl

def CtlTest.body (t : CtlTest) (k : Kernel) (helperDir : CString) : ChildState × WaitStatus :=
  mallocRevocationCtlCommonProcctl k helperDir t.progname t.shouldBeRevoking t.procctlArg

def mallocRevocationCtlBaseline : CtlTest :=
  ⟨cstr "malloc_revocation_ctl_baseline",skipNeedDefaultCheriRevoke,
    cstr "malloc_revoke_enabled",true,none⟩

def mallocRevocationCtlElfnoteDisable : CtlTest :=
  ⟨cstr "malloc_revocation_ctl_elfnote_disable",skipNeedCheriRevoke,
    cstr "malloc_revoke_enabled_elfnote_disable",false,none⟩

def mallocRevocationCtlElfnoteEnable : CtlTest :=
  ⟨cstr "malloc_revocation_ctl_elfnote_enable",skipNeedCheriRevoke,
    cstr "malloc_revoke_enabled_elfnote_enable",true,none⟩

def mallocRevocationCtlElfnoteDisableProtctlEnable : CtlTest :=
  ⟨cstr "malloc_revocation_ctl_elfnote_disable_protctl_enable",skipNeedCheriRevoke,
    cstr "malloc_revoke_enabled_elfnote_disable",true,some .forceEnable⟩

def mallocRevocationCtlElfnoteEnableProtctlDisable : CtlTest :=
  ⟨cstr "malloc_revocation_ctl_elfnote_enable_protctl_disable",skipNeedCheriRevoke,
    cstr "malloc_revoke_enabled_elfnote_enable",false,some .forceDisable⟩

def mallocRevocationCtlSuidBaseline : CtlTest :=
  ⟨cstr "malloc_revocation_ctl_suid_baseline",skipNeedDefaultCheriRevoke,
    cstr "malloc_revoke_enabled_suid",true,none⟩

def mallocRevocationCtlSuidElfnoteDisable : CtlTest :=
  ⟨cstr "malloc_revocation_ctl_suid_elfnote_disable",skipNeedCheriRevoke,
    cstr "malloc_revoke_enabled_elfnote_disable",false,none⟩

def mallocRevocationCtlSuidElfnoteEnable : CtlTest :=
  ⟨cstr "malloc_revocation_ctl_suid_elfnote_enable",skipNeedCheriRevoke,
    cstr "malloc_revoke_enabled_elfnote_enable",true,none⟩

def mallocRevocationCtlSuidElfnoteDisableProtctlEnable : CtlTest :=
  ⟨cstr "malloc_revocation_ctl_suid_elfnote_disable_protctl_enable",
    skipNeedSuidHelpersAndCheriRevoke,cstr "malloc_revoke_enabled_suid_elfnote_disable",false,
    some .forceEnable⟩

def mallocRevocationCtlSuidElfnoteEnableProtctlDisable : CtlTest :=
  ⟨cstr "malloc_revocation_ctl_suid_elfnote_enable_protctl_disable",
    skipNeedSuidHelpersAndCheriRevoke,cstr "malloc_revoke_enabled_suid_elfnote_enable",true,
    some .forceDisable⟩

def suidProtctlTests : List CtlTest :=
  [mallocRevocationCtlSuidElfnoteDisableProtctlEnable,
    mallocRevocationCtlSuidElfnoteEnableProtctlDisable]

def noteTests : List CtlTest :=
  [mallocRevocationCtlElfnoteDisable,mallocRevocationCtlElfnoteEnable,
    mallocRevocationCtlElfnoteDisableProtctlEnable,
    mallocRevocationCtlElfnoteEnableProtctlDisable,mallocRevocationCtlSuidElfnoteDisable,
    mallocRevocationCtlSuidElfnoteEnable]

def baselineTests : List CtlTest :=
  [mallocRevocationCtlBaseline,mallocRevocationCtlSuidBaseline]

def ctlTests : List CtlTest := baselineTests ++ noteTests ++ suidProtctlTests

/-- `struct cheri_test` of a test that sets nothing but its name and its skip check. -/
def CtlTest.cheriTest (t : CtlTest) : CheriTest := ⟨t.name,true,false,0,0,0,0,[],[],none,none⟩

/-- The harness runs the test, and its own calls succeed. -/
structure CtlTest.RunIn (t : CtlTest) (k : Kernel) (helperDir : CString) (w : World) : Prop where
  checkSkip : w.checkSkip = t.checkSkip k
  pipeStdin : w.pipeStdin.isSome
  pipeStdout : w.pipeStdout.isSome
  fork : w.fork
  fcntl : w.fcntl
  page : w.page = (t.body k helperDir).1
  waitpid : w.waitpid = some (t.body k helperDir).2
  stdout : w.stdout = .ok []

/-- Where `procctl` fails the test compares the exit status of its own child. -/
def CtlTest.Passes (t : CtlTest) (k : Kernel) (helperDir : CString) : Prop :=
  k.fork ∧
    ((∃ arg strerror, t.procctlArg = some arg ∧ k.procctl arg = .error strerror ∧
        t.shouldBeRevoking = false) ∨
      ((∀ arg, t.procctlArg = some arg → k.procctl arg = .ok ()) ∧
        ∃ n, k.execve t.procctlArg (helperPath helperDir t.progname) = some (.exited n) ∧
          (n = 0 ↔ t.shouldBeRevoking = true)))

section Verdicts

variable {k : Kernel} {t : CtlTest} {dir : CString} {page : ChildState} {r : Report}

theorem applied_failure (abi : Abi) (h : r.IsFailure) :
    (applied abi r page).ccsTestresult = TESTRESULT_FAILURE ∧
      (applied abi r page).ccsSignum = page.ccsSignum := by
  cases r with
  | failureErrx msg =>
    cases msg <;> simp [applied,Report.stores,failureErrxStores,storeMessage,Store.apply]
  | failureErrc msg strerror =>
    cases msg with
    | none => simp [applied,Report.stores,failureErrcStores,Store.apply]
    | some s =>
      by_cases hs : TESTRESULT_STR_LEN ≤ s.length <;>
        simp [applied,Report.stores,failureErrcStores,storeMessage,Store.apply,hs]
  | _ => exact h.elim

theorem applied_success (abi : Abi) :
    (applied abi .success page).ccsTestresult = TESTRESULT_SUCCESS ∧
      (applied abi .success page).ccsSignum = page.ccsSignum := by
  simp [applied,Report.stores,successStores,Store.apply]

/-- A child that ran its helper has not touched the page, and one that failed left no signal. -/
theorem applied_child (arg : Option RevokeCtl) (path : CString) :
    (applied k.abi (childReport k path arg) page).ccsSignum = page.ccsSignum := by
  have hexec : ∀ arg, (applied k.abi (execReport k arg path) page).ccsSignum =
      page.ccsSignum := by
    intro arg
    rw [execReport]
    cases k.execve arg path <;> simp [applied,Report.stores]
  cases arg with
  | none => exact hexec none
  | some arg =>
    rw [childReport]
    cases k.procctl arg with
    | error strerror =>
      exact (applied_failure k.abi (r := procctlFailure strerror) trivial).2
    | ok u => exact hexec (some arg)

theorem childIsRevoking_exited (n : UInt8) :
    childIsRevoking (.exited n) = .ok (decide (n = 0)) := by
  have hn : n.toNat = 0 ↔ n = 0 := by
    rw [← UInt8.toNat_inj]
    rfl
  simp [childIsRevoking,WaitStatus.WIFEXITED,WaitStatus.WEXITSTATUS,hn]

theorem parentReport_success {res : WaitStatus} {should : Bool} :
    parentReport res should = .success ↔ ∃ n, res = .exited n ∧ (n = 0 ↔ should = true) := by
  cases res with
  | exited n =>
    rw [parentReport,childIsRevoking_exited]
    by_cases h : n = 0 <;> cases should <;> simp [h]
  | _ => simp [parentReport,childIsRevoking,WaitStatus.WIFEXITED]

theorem parentReport_failure {res : WaitStatus} {should : Bool}
    (h : parentReport res should ≠ .success) : (parentReport res should).IsFailure := by
  rw [parentReport] at h ⊢
  cases hres : childIsRevoking res with
  | error r =>
    rw [childIsRevoking] at hres
    split_ifs at hres
    cases hres
    trivial
  | ok revoking =>
    rw [hres] at h
    simp only at h ⊢
    split_ifs at h ⊢ <;> trivial

theorem execReport_exited {arg : Option RevokeCtl} {path : CString} {n : UInt8} :
    (execReport k arg path).status = .exited n ↔ k.execve arg path = some (.exited n) := by
  rw [execReport]
  cases k.execve arg path <;> simp [Report.status]

theorem passes_iff : t.Passes k dir ↔ k.fork = true ∧ parentReport
    (childReport k (helperPath dir t.progname) t.procctlArg).status t.shouldBeRevoking =
      .success := by
  rw [CtlTest.Passes,parentReport_success]
  refine and_congr_right fun _ => ?_
  cases harg : t.procctlArg with
  | none => simp [childReport,execReport_exited]
  | some arg =>
    cases hctl : k.procctl arg with
    | error strerror =>
      simp [childReport,hctl,procctlFailure,Report.status]
    | ok u => simp [childReport,hctl,execReport_exited]

/-- What the test leaves on the page and how it ends, for a kernel of any kind. -/
theorem body_cases (t : CtlTest) (k : Kernel) (dir : CString) :
    (t.Passes k dir ∧ (t.body k dir).1.ccsTestresult = TESTRESULT_SUCCESS ∧
      (t.body k dir).1.ccsSignum = 0 ∧ (t.body k dir).2 = .exited 0) ∨
    ¬ t.Passes k dir ∧ (t.body k dir).1.ccsTestresult = TESTRESULT_FAILURE := by
  rw [passes_iff,CtlTest.body,mallocRevocationCtlCommonProcctl]
  cases hfork : k.fork with
  | false => exact .inr ⟨by simp,(applied_failure k.abi (r := .failureErrx _) trivial).1⟩
  | true =>
    rw [if_pos rfl]
    by_cases h : parentReport (childReport k (helperPath dir t.progname) t.procctlArg).status
        t.shouldBeRevoking = .success
    · simp only [h]
      refine .inl ⟨by simp,(applied_success k.abi).1,?_,rfl⟩
      rw [(applied_success k.abi).2,applied_child]
      rfl
    · exact .inr ⟨by simp [h],(applied_failure k.abi (parentReport_failure h)).1⟩

/-- Such a test sets no flag. -/
theorem cheriTest_has (t : CtlTest) (flag : UInt32) : t.cheriTest.has flag = false := by
  simp [CtlTest.cheriTest,CheriTest.has]

theorem accepts_iff (os : OS) {w : World} (h : t.RunIn k dir w) :
    Accepts os t.cheriTest w (t.body k dir).2 ↔ t.Passes k dir := by
  rcases body_cases t k dir with ⟨hp,hres,hsig,hst⟩ | ⟨hp,hres⟩
  · have hpage : w.page.ccsTestresult = TESTRESULT_SUCCESS ∧ w.page.ccsSignum = 0 := by
      rw [h.page]
      exact ⟨hres,hsig⟩
    have hsi : SiMatches os t.cheriTest w.page := by
      constructor <;> simp [cheriTest_has]
    have hexit : ExitedAcceptably os t.cheriTest w.page (t.body k dir).2 :=
      ⟨⟨0,hst,.inl rfl⟩,hpage.2.ge,by simp [cheriTest_has],fun _ => hpage.2,hsi⟩
    have hout : StdoutOk t.cheriTest w := by
      constructor
      · simp [cheriTest_has]
      · intro _ _ out hout
        rw [h.stdout] at hout
        exact (Except.ok.inj hout).symm
    simp only [hp,iff_true]
    exact ⟨by rw [hpage.1]; decide,.inr ⟨by simp [cheriTest_has],hexit,fun _ => hpage.1,hout⟩⟩
  · simp only [hp,iff_false]
    intro hacc
    rw [Accepts,h.page] at hacc
    exact hacc.1 hres

/-- A test without a reason gets the plain labels. -/
theorem afterChild_verdict (t : CtlTest) (lc : Libc) (os : OS) (o : Options) (w : World)
    (status : WaitStatus) (g : Globals) :
    (Accepts os t.cheriTest w status ∧
      (afterChild lc os o t.cheriTest w status g).1 = Verdict.pass) ∨
    ¬ Accepts os t.cheriTest w status ∧
      (afterChild lc os o t.cheriTest w status g).1 = Verdict.fail := by
  have hx : xfailReason t.cheriTest w = none := by simp [xfailReason,CtlTest.cheriTest]
  have hf : t.cheriTest.ctFlakyReason = none := rfl
  rcases afterChild_cases lc os o t.cheriTest w status g with ⟨hacc,he⟩ | ⟨f,hno,-,he⟩
  · rw [he,passTail_fst,hx]
    exact .inl ⟨hacc,rfl⟩
  · rw [he,failTail_fst,hx,hf]
    exact .inr ⟨hno,by simp⟩

/-- The three verdicts that the harness may give, and when it gives them. -/
theorem verdict_cases (lc : Libc) (os : OS) (o : Options) {w : World} (l : Locals) (g : Globals)
    (hname : disallowedPrefix t.name = none) (h : t.RunIn k dir w) :
    ∃ v g', runTest lc os o t.cheriTest w l g = .ok (v,g') ∧
      ((v = .skip ∧ (t.checkSkip k).isSome) ∨
        (v = .pass ∧ t.checkSkip k = none ∧ t.Passes k dir) ∨
        (v = .fail ∧ t.checkSkip k = none ∧ ¬ t.Passes k dir)) := by
  have hd : disallowedPrefix t.cheriTest.ctName = none := hname
  have hfast : (o.fastTestsOnly && t.cheriTest.has CT_FLAG_SLOW) = false := by
    simp [cheriTest_has]
  have hskip : skipReason t.cheriTest w = t.checkSkip k := by
    simp [skipReason,CtlTest.cheriTest,h.checkSkip]
  cases hs : t.checkSkip k with
  | some reason =>
    refine ⟨.skip,(g.xoOpenInstance.skipped t.cheriTest reason).xoCloseInstance,?_,by simp⟩
    rw [runTest,hd]
    simp [hfast,hskip,hs]
  | none =>
    obtain ⟨i,hi⟩ := Option.isSome_iff_exists.mp h.pipeStdin
    obtain ⟨j,hj⟩ := Option.isSome_iff_exists.mp h.pipeStdout
    have hstdin : writeStdin t.cheriTest w = .ok () := by simp [writeStdin,cheriTest_has]
    have hpath : path o t.cheriTest w = .child i j := by
      simp [path,hd,hfast,hskip,hs,hi,hj,hstdin,h.fork,h.fcntl]
    refine ⟨(afterChild lc os o t.cheriTest w (t.body k dir).2 (atChild t.cheriTest w i j g)).1,_,
      by rw [runTest_eq,hpath,h.waitpid]; rfl,?_⟩
    rcases afterChild_verdict t lc os o w (t.body k dir).2 (atChild t.cheriTest w i j g) with
      ⟨hacc,hv⟩ | ⟨hacc,hv⟩
    · simp [hv,(accepts_iff os h).mp hacc]
    · simp [hv,mt (accepts_iff os h).mpr hacc]

theorem allowed_names : ∀ t ∈ ctlTests, disallowedPrefix t.name = none := by
  decide +kernel

/-- The harness with a kernel for its test. -/
def CtlTest.world (t : CtlTest) (k : Kernel) (dir : CString) : World :=
  { plainWorld with
    checkSkip := t.checkSkip k
    page := (t.body k dir).1
    waitpid := some (t.body k dir).2 }

theorem CtlTest.runIn_world (t : CtlTest) (k : Kernel) (dir : CString) :
    t.RunIn k dir (t.world k dir) :=
  ⟨rfl,rfl,rfl,rfl,rfl,rfl,rfl,rfl⟩

/-- The oracle of the ten tests: a child whose `procctl` failed has stored its failure, but
the parent takes its exit status for the answer of the helper and stores over it. -/
theorem ctl_verdict_iff (lc : Libc) (os : OS) (o : Options) (w : World) (l : Locals)
    (g : Globals) (ht : t ∈ ctlTests) (h : t.RunIn k dir w) :
    ∃ v g', runTest lc os o t.cheriTest w l g = .ok (v,g') ∧
      (v = .skip ↔ t.checkSkip k ≠ none) ∧
      (v = .pass ↔ t.checkSkip k = none ∧ t.Passes k dir) ∧
      (v = .fail ↔ t.checkSkip k = none ∧ ¬ t.Passes k dir) := by
  obtain ⟨v,g',hrun,hv⟩ := verdict_cases lc os o l g (allowed_names t ht) h
  refine ⟨v,g',hrun,?_⟩
  rcases hv with ⟨rfl,hs⟩ | ⟨rfl,hs,hp⟩ | ⟨rfl,hs,hp⟩
  · simp [Option.isSome_iff_ne_none.mp hs]
  · simp [hs,hp]
  · simp [hs,hp]

/-- No setting is accepted, and there are no helpers. -/
def bareKernel : Kernel where
  abi := ⟨.freeBSD,true⟩
  featurePresent := true
  runtimeRevocationDefault := some 1
  fstypename := some (cstr "ufs")
  fork := true
  procctl := fun _ => .error (cstr "Invalid argument")
  execve := fun _ _ => none

theorem ctl_verdict_bareKernel :
    let t := mallocRevocationCtlElfnoteEnableProtctlDisable
    ∃ g', runTest plainLibc .freeBSD ⟨false,0⟩ t.cheriTest (t.world bareKernel []) plainLocals
      .initial = .ok (.pass,g') := by
  intro t
  obtain ⟨v,g',hrun,-,hpass,-⟩ := ctl_verdict_iff plainLibc .freeBSD ⟨false,0⟩ _ plainLocals
    .initial (show t ∈ ctlTests by simp [t,ctlTests,noteTests]) (t.runIn_world bareKernel [])
  have hp : t.Passes bareKernel [] := ⟨rfl,.inl ⟨.forceDisable,_,rfl,rfl,rfl⟩⟩
  exact ⟨g',by rw [hrun,hpass.mpr ⟨rfl,hp⟩]⟩

end Verdicts

end CheriOsTest.RevocationCtl
