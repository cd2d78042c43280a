import CheriOsTest.Ladder
set_option autoImplicit false

/-! Verdicts of one call. The way through `cheriostest_run_test` and the ladder
decide whether a test is accepted; the two reasons only choose the label. -/

namespace CheriOsTest.Harness
open CheriOsTest.CStrings CheriOsTest.Programs

inductive Outcome where
  | filtered
  | skipped
  | accepted
  | rejected
  deriving DecidableEq, Repr

def Verdict.outcome : Verdict → Outcome
  | .filtered => .filtered
  | .skip => .skipped
  | .pass | .xpass => .accepted
  | .fail | .xfail => .rejected

/-- The way that a call takes up to `waitpid`. -/
inductive Path where
  | disallowed : CString → Path
  | filtered
  | skipped : CString → Path
  | left
  | noInput : Int × Int → Int × Int → Failure → Path
  | child : Int × Int → Int × Int → Path

def path (o : Options) (t : CheriTest) (w : World) : Path :=
  match disallowedPrefix t.ctName with
  | some p => .disallowed p
  | none =>
    if o.fastTestsOnly && t.has CT_FLAG_SLOW then .filtered
    else
      match skipReason t w,w.pipeStdin,w.pipeStdout,writeStdin t w with
      | some reason,_,_,_ => .skipped reason
      | none,some i,some j,.error f => .noInput i j f
      | none,some i,some j,.ok () => if w.fork && w.fcntl then .child i j else .left
      | none,_,_,_ => .left

section Paths

variable {lc : Libc} {os : OS} {o : Options} {t : CheriTest} {w : World} {l : Locals}
  {g : Globals}

/-- The globals a call has when it starts to look at its child. -/
def atChild (t : CheriTest) (w : World) (i j : Int × Int) (g : Globals) : Globals :=
  let g := (((g.xoOpenInstance.expect (xfailReason t w)).opened i).opened j)
  let g := (g.close i.1).close j.2
  { g with testsRun := g.testsRun+1 }

theorem runTest_eq : runTest lc os o t w l g =
    match path o t w with
    | .disallowed p => .ok (doReturn l.pipefdStdin.2 l.pipefdStdout.1
        (failTail lc t (reasonf
          (cstr "test name begins with disallowed prefix '" ++ p ++ cstr "'"))
          none l.flakyReason g.xoOpenInstance))
    | .filtered => .ok (.filtered,g.xoOpenInstance)
    | .skipped reason => .ok (.skip,(g.xoOpenInstance.skipped t reason).xoCloseInstance)
    | .left => .error EX_OSERR
    | .noInput i j f => .ok (doReturn i.2 j.1
        (failTail lc t f.reason (xfailReason t w) t.ctFlakyReason
          (((g.xoOpenInstance.expect (xfailReason t w)).opened i).opened j)))
    | .child i j => .ok (doReturn i.2 j.1
        (afterChild lc os o t w (w.waitpid.getD l.status) (atChild t w i j g))) := by
  rw [runTest,path]
  cases disallowedPrefix t.ctName with
  | some p => rfl
  | none =>
    by_cases hfast : o.fastTestsOnly && t.has CT_FLAG_SLOW
    · simp only [hfast,if_true]
    simp only [hfast,Bool.false_eq_true,if_false,forkTest]
    cases skipReason t w with
    | some reason => rfl
    | none =>
      cases w.pipeStdin with
      | none => rfl
      | some i =>
        cases w.pipeStdout with
        | none => rfl
        | some j =>
          cases writeStdin t w with
          | error f => rfl
          | ok u => cases w.fork <;> cases w.fcntl <;> rfl

/-- Nothing has ended the call before it had its two pipes. -/
structure Piped (o : Options) (t : CheriTest) (w : World) (i j : Int × Int) : Prop where
  name : disallowedPrefix t.ctName = none
  fast : ¬ (o.fastTestsOnly ∧ t.has CT_FLAG_SLOW)
  skip : skipReason t w = none
  pipeStdin : w.pipeStdin = some i
  pipeStdout : w.pipeStdout = some j

/-- What each way says of the test and the world. -/
theorem path_inv (o : Options) (t : CheriTest) (w : World) : match path o t w with
    | .disallowed p => disallowedPrefix t.ctName = some p
    | .filtered => disallowedPrefix t.ctName = none ∧ (o.fastTestsOnly ∧ t.has CT_FLAG_SLOW)
    | .skipped reason => disallowedPrefix t.ctName = none ∧
        ¬ (o.fastTestsOnly ∧ t.has CT_FLAG_SLOW) ∧ skipReason t w = some reason
    | .left => disallowedPrefix t.ctName = none
    | .noInput i j f => Piped o t w i j ∧ writeStdin t w = .error f
    | .child i j => Piped o t w i j ∧ writeStdin t w = .ok () ∧ w.fork ∧ w.fcntl := by
  rw [path]
  cases hd : disallowedPrefix t.ctName with
  | some p => rfl
  | none =>
    by_cases hfast : o.fastTestsOnly && t.has CT_FLAG_SLOW
    · simp only [hfast,if_true]
      exact ⟨trivial,by simpa using hfast⟩
    have hslow : ¬ (o.fastTestsOnly ∧ t.has CT_FLAG_SLOW) := by simpa using hfast
    simp only [hfast,Bool.false_eq_true,if_false]
    cases hs : skipReason t w with
    | some reason => exact ⟨trivial,hslow,rfl⟩
    | none =>
      cases hi : w.pipeStdin with
      | none => trivial
      | some i =>
        cases hj : w.pipeStdout with
        | none => trivial
        | some j =>
          have hpiped : Piped o t w i j := ⟨hd,hslow,hs,hi,hj⟩
          cases writeStdin t w with
          | error f => exact ⟨hpiped,rfl⟩
          | ok u =>
            cases hf : w.fork <;> cases hc : w.fcntl <;>
              simp [hpiped]

/-- The calls that return, one constructor for each way through the function. -/
inductive Returns (lc : Libc) (os : OS) (o : Options) (t : CheriTest) (w : World) (l : Locals)
    (g : Globals) : Verdict × Globals → Prop where
  | disallowed {p : CString} : disallowedPrefix t.ctName = some p →
      Returns lc os o t w l g (doReturn l.pipefdStdin.2 l.pipefdStdout.1
        (failTail lc t (reasonf
          (cstr "test name begins with disallowed prefix '" ++ p ++ cstr "'"))
          none l.flakyReason g.xoOpenInstance))
  | filtered : disallowedPrefix t.ctName = none → (o.fastTestsOnly ∧ t.has CT_FLAG_SLOW) →
      Returns lc os o t w l g (.filtered,g.xoOpenInstance)
  | skipped {reason : CString} : disallowedPrefix t.ctName = none →
      ¬ (o.fastTestsOnly ∧ t.has CT_FLAG_SLOW) → skipReason t w = some reason →
      Returns lc os o t w l g (.skip,(g.xoOpenInstance.skipped t reason).xoCloseInstance)
  | noInput {i j : Int × Int} {f : Failure} : disallowedPrefix t.ctName = none →
      ¬ (o.fastTestsOnly ∧ t.has CT_FLAG_SLOW) → skipReason t w = none →
      writeStdin t w = .error f →
      Returns lc os o t w l g (doReturn i.2 j.1
        (failTail lc t f.reason (xfailReason t w) t.ctFlakyReason
          (((g.xoOpenInstance.expect (xfailReason t w)).opened i).opened j)))
  | child {i j : Int × Int} : disallowedPrefix t.ctName = none →
      ¬ (o.fastTestsOnly ∧ t.has CT_FLAG_SLOW) → skipReason t w = none →
      writeStdin t w = .ok () →
      Returns lc os o t w l g (doReturn i.2 j.1
        (afterChild lc os o t w (w.waitpid.getD l.status) (atChild t w i j g)))

theorem runTest_returns {r : Verdict × Globals} (h : runTest lc os o t w l g = .ok r) :
    Returns lc os o t w l g r := by
  have hinv := path_inv o t w
  rw [runTest_eq] at h
  cases hp : path o t w with
  | left => rw [hp] at h; cases h
  | disallowed p =>
    rw [hp] at h hinv
    cases h
    exact .disallowed hinv
  | filtered =>
    rw [hp] at h hinv
    cases h
    exact .filtered hinv.1 hinv.2
  | skipped reason =>
    rw [hp] at h hinv
    cases h
    exact .skipped hinv.1 hinv.2.1 hinv.2.2
  | noInput i j f =>
    rw [hp] at h hinv
    cases h
    exact .noInput hinv.1.name hinv.1.fast hinv.1.skip hinv.2
  | child i j =>
    rw [hp] at h hinv
    cases h
    exact .child hinv.1.name hinv.1.fast hinv.1.skip hinv.2.1

theorem failTail_fst (reason : CString) (xfail flaky : Option CString) :
    (failTail lc t reason xfail flaky g).1 =
      if xfail.isNone && flaky.isNone then .fail else .xfail := by
  rw [failTail]
  split_ifs <;> rfl

theorem passTail_fst (page : ChildState) (xfail : Option CString) :
    (passTail lc t page xfail g).1 = if xfail.isNone then .pass else .xpass := by
  cases xfail <;> rfl

theorem failTail_rejected (reason : CString) (xfail flaky : Option CString) :
    (failTail lc t reason xfail flaky g).1.outcome = .rejected := by
  rw [failTail_fst]
  split_ifs <;> rfl

theorem passTail_accepted (page : ChildState) (xfail : Option CString) :
    (passTail lc t page xfail g).1.outcome = .accepted := by
  rw [passTail_fst]
  split_ifs <;> rfl

/-- What the ladder makes of a child. -/
theorem afterChild_cases (lc : Libc) (os : OS) (o : Options) (t : CheriTest) (w : World)
    (status : WaitStatus) (g : Globals) :
    (Accepts os t w status ∧
      afterChild lc os o t w status g = passTail lc t w.page (xfailReason t w) g) ∨
    ∃ f : Failure, ¬ Accepts os t w status ∧ (f.cleared = true ↔ HarnessError os t w status) ∧
      afterChild lc os o t w status g = failTail lc t f.reason
        (if f.cleared then none else xfailReason t w)
        (if f.cleared then none else t.ctFlakyReason) g := by
  have hok : checkChild lc os o t w status = .ok () ↔ Accepts os t w status := checkChild_eq_ok
  cases hc : checkChild lc os o t w status with
  | ok u =>
    rw [hc] at hok
    exact .inl ⟨hok.mp rfl,by rw [afterChild,hc]⟩
  | error f =>
    rw [hc] at hok
    exact .inr ⟨f,fun h => (nomatch hok.mpr h),checkChild_cleared hc,by rw [afterChild,hc]⟩

theorem afterChild_outcome (lc : Libc) (os : OS) (o : Options) (t : CheriTest) (w : World)
    (status : WaitStatus) (g : Globals) :
    ((afterChild lc os o t w status g).1.outcome = .accepted ↔ Accepts os t w status) ∧
      ((afterChild lc os o t w status g).1.outcome = .rejected ↔ ¬ Accepts os t w status) := by
  rcases afterChild_cases lc os o t w status g with ⟨hok,he⟩ | ⟨f,hno,-,he⟩
  · rw [he,passTail_accepted]
    simp [hok]
  · rw [he,failTail_rejected]
    simp [hno]

/-- The report and the descriptors are those of the earlier globals. -/
structure SameEffects (g g' : Globals) : Prop where
  xo : g'.xo = g.xo
  fds : g'.fds = g.fds

theorem expect_effects (xfail : Option CString) : SameEffects g (g.expect xfail) := by
  cases xfail <;> exact ⟨rfl,rfl⟩

theorem failTail_effects (reason : CString) (xfail flaky : Option CString) :
    SameEffects g (failTail lc t reason xfail flaky g).2 := by
  rw [failTail]
  split_ifs <;> exact ⟨rfl,rfl⟩

theorem passTail_effects (page : ChildState) (xfail : Option CString) :
    SameEffects g (passTail lc t page xfail g).2 := by
  cases xfail <;> cases hw : page.ccsWarn <;> constructor <;> simp [passTail,Globals.warned,hw]

theorem afterChild_effects (status : WaitStatus) :
    SameEffects g (afterChild lc os o t w status g).2 := by
  rcases afterChild_cases lc os o t w status g with ⟨-,he⟩ | ⟨f,-,-,he⟩
  · rw [he]
    exact passTail_effects _ _
  · rw [he]
    exact failTail_effects _ _ _

end Paths

def StdinWritten (t : CheriTest) (w : World) : Prop :=
  t.has CT_FLAG_STDIN_STRING → w.write = .ok t.ctStdinString.length

theorem writeStdin_eq_ok {t : CheriTest} {w : World} :
    writeStdin t w = .ok () ↔ StdinWritten t w := by
  by_cases hs : t.has CT_FLAG_STDIN_STRING
  · rw [writeStdin,if_pos hs,StdinWritten]
    cases w.write <;> simp [failIf_eq_ok,hs]
  · simp [writeStdin,StdinWritten,hs]

/-- The call gets as far as its child: nothing leaves it before, and every system
call that sets up the child succeeds. -/
structure ChildRan (o : Options) (t : CheriTest) (w : World) : Prop where
  name : disallowedPrefix t.ctName = none
  fast : ¬ (o.fastTestsOnly ∧ t.has CT_FLAG_SLOW)
  skip : skipReason t w = none
  pipeStdin : w.pipeStdin.isSome
  pipeStdout : w.pipeStdout.isSome
  stdin : StdinWritten t w
  fork : w.fork
  fcntl : w.fcntl

theorem ChildRan.path_eq {o : Options} {t : CheriTest} {w : World} (h : ChildRan o t w) :
    ∃ i j, path o t w = .child i j := by
  obtain ⟨i,hi⟩ := Option.isSome_iff_exists.mp h.pipeStdin
  obtain ⟨j,hj⟩ := Option.isSome_iff_exists.mp h.pipeStdout
  have hfast : (o.fastTestsOnly && t.has CT_FLAG_SLOW) = false := by
    simpa using h.fast
  refine ⟨i,j,?_⟩
  simp [path,h.name,hfast,h.skip,hi,hj,writeStdin_eq_ok.mpr h.stdin,h.fork,h.fcntl]

theorem ChildRan.of_path {o : Options} {t : CheriTest} {w : World} {i j : Int × Int}
    (h : path o t w = .child i j) : ChildRan o t w := by
  have hinv := path_inv o t w
  rw [h] at hinv
  obtain ⟨hpiped,hwrite,hfork,hfcntl⟩ := hinv
  exact ⟨hpiped.name,hpiped.fast,hpiped.skip,by simp [hpiped.pipeStdin],
    by simp [hpiped.pipeStdout],writeStdin_eq_ok.mp hwrite,hfork,hfcntl⟩

/-- A test whose child has run is accepted exactly when `Accepts` holds, and is
rejected otherwise. -/
theorem accepted_iff (lc : Libc) (os : OS) (o : Options) (t : CheriTest) (w : World)
    (l : Locals) (g : Globals) (h : ChildRan o t w) :
    ∃ v g', runTest lc os o t w l g = .ok (v,g') ∧
      (v.outcome = .accepted ↔ Accepts os t w (w.waitpid.getD l.status)) ∧
      (v.outcome = .rejected ↔ ¬ Accepts os t w (w.waitpid.getD l.status)) := by
  obtain ⟨i,j,hp⟩ := h.path_eq
  rw [runTest_eq,hp]
  exact ⟨_,_,rfl,afterChild_outcome lc os o t w _ _⟩

/-- A test of the plainest kind: no flag, no check function and no reason. -/
def plainTest : CheriTest := ⟨cstr "fault",false,false,0,0,0,0,[],[],none,none⟩

/-- Every system call succeeds, and the child exits with 0 after `cheriostest_success`. -/
def plainWorld : World where
  checkSkip := none
  checkXfail := none
  pipeStdin := some (3,4)
  pipeStdout := some (5,6)
  write := .ok 0
  fork := true
  fcntl := true
  waitpid := some (.exited 0)
  page := { ChildState.zeroed with ccsTestresult := TESTRESULT_SUCCESS }
  stdout := .ok []

def plainLocals : Locals := ⟨.exited 0,(0,0),(0,0),none⟩

def plainLibc : Libc := ⟨fun _ s => s,fun _ => cstr "0x0"⟩

/-- The counters and lists before the first test. -/
def Globals.initial : Globals := ⟨0,0,0,0,0,0,0,[],[],[],[],[],[],.look {0,1,2}⟩

theorem plainTest_childRan : ChildRan ⟨false,0⟩ plainTest plainWorld :=
  ⟨by decide,by decide,by decide,by decide,by decide,fun h => absurd h (by decide),by decide,by decide⟩

theorem accepted_iff_plain : ∃ v g',
    runTest plainLibc .freeBSD ⟨false,0⟩ plainTest plainWorld plainLocals .initial = .ok (v,g') ∧
      (v.outcome = .accepted ↔ Accepts .freeBSD plainTest plainWorld (.exited 0)) ∧
      (v.outcome = .rejected ↔ ¬ Accepts .freeBSD plainTest plainWorld (.exited 0)) :=
  accepted_iff plainLibc .freeBSD ⟨false,0⟩ plainTest plainWorld plainLocals .initial
    plainTest_childRan

section Relabel

variable {lc : Libc} {os : OS} {o : Options} {t : CheriTest} {w : World} {l : Locals}
  {g : Globals} {status : WaitStatus}

end Relabel

def plainXfailTest : CheriTest := { plainTest with ctXfailReason := some (cstr "known") }

end CheriOsTest.Harness
