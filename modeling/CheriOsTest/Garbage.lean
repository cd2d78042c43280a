import CheriOsTest.Counters
set_option autoImplicit false

/-! What a call reports against what the stack held before it: two runs that differ only
in the bytes that the local variables start with. -/

namespace CheriOsTest.Harness
open CheriOsTest.CStrings CheriOsTest.Programs

namespace WaitStatus

def continuedWord : OS → UInt32
  | .freeBSD => 0x13
  | .linux => 0xffff

/-- The status that a word means, by the macros of `sys/wait.h`. -/
def ofWord (os : OS) (x : UInt32) : WaitStatus :=
  if x = continuedWord os then .continued
  else if x.toNat%128 = 0 then .exited (x >>> 8).toUInt8
  else if x.toNat%128 = 127 then .stopped (x.toNat/256%256)
  else .signaled (x.toNat%128 : Nat)

theorem ofWord_zero (os : OS) : ofWord os 0 = .exited 0 := by
  cases os <;> rfl

theorem exists_ofWord_signaled (os : OS) (n : Int) :
    (∃ x, ofWord os x = .signaled n) ↔ 1 ≤ n ∧ n ≤ 126 := by
  constructor
  · rintro ⟨x,hx⟩
    rw [ofWord] at hx
    split_ifs at hx with h₁ h₂ h₃
    cases hx
    omega
  · rintro ⟨h₁,h₂⟩
    obtain ⟨m,rfl⟩ := Int.eq_ofNat_of_zero_le (show 0 ≤ n by omega)
    -- with the bit of a core dump, so that the word is not that of a continued process
    have hword : (UInt32.ofNat (128+m)).toNat = 128+m := by
      rw [UInt32.toNat_ofNat']
      omega
    have hcont : UInt32.ofNat (128+m) ≠ continuedWord os := by
      intro hc
      rw [hc] at hword
      cases os
      · change 19 = 128+m at hword
        omega
      · change 65535 = 128+m at hword
        omega
    have hmod : (128+m)%128 = m := by omega
    refine ⟨UInt32.ofNat (128+m),?_⟩
    rw [ofWord,if_neg hcont,hword,hmod,if_neg (by omega),if_neg (by omega)]

end WaitStatus

/-- The local variables that are read before they are set, as the stack has them. -/
structure Garbage where
  status : UInt32
  pipefdStdin : Int × Int
  pipefdStdout : Int × Int
  flakyReason : Option CString

def Garbage.locals (os : OS) (x : Garbage) : Locals :=
  ⟨.ofWord os x.status,x.pipefdStdin,x.pipefdStdout,x.flakyReason⟩

structure Tallies where
  testsRun : Nat
  testsSkipped : Nat
  testsFailed : Nat
  testsPassed : Nat
  testsXfailed : Nat
  testsXpassed : Nat
  expectedFailures : Nat
  deriving DecidableEq

def Globals.tallies (g : Globals) : Tallies :=
  ⟨g.testsRun,g.testsSkipped,g.testsFailed,g.testsPassed,g.testsXfailed,g.testsXpassed,
    g.expectedFailures⟩

/-- The verdict of a call and the counters after it. -/
def report (r : Verdict × Globals) : Verdict × Tallies := (r.1,r.2.tallies)

/-- No garbage in `status` makes a difference: the page tells of a failure, or no garbage
can be accepted and none can take away reasons that are there. -/
def StatusUnread (os : OS) (t : CheriTest) (w : World) : Prop :=
  w.page.ccsTestresult = TESTRESULT_FAILURE ∨
    (t.has CT_FLAG_SIGEXIT ∧ ¬ (1 ≤ t.ctSignum ∧ t.ctSignum ≤ 126)) ∨
    (¬ t.has CT_FLAG_SIGEXIT ∧ ¬ Accepts os t w (.exited 0) ∧
      (HarnessError os t w (.exited 0) → xfailReason t w = none ∧ t.ctFlakyReason = none))

/-- The name is allowed, and of a child that ran the harness has the status or does not
need it. -/
def Determined (os : OS) (o : Options) (t : CheriTest) (w : World) : Prop :=
  disallowedPrefix t.ctName = none ∧
    (ChildRan o t w → w.waitpid ≠ none ∨ StatusUnread os t w)

section Reports

variable {lc : Libc} {os : OS} {o : Options} {t : CheriTest} {w : World} {g g₁ g₂ : Globals}
  {status : WaitStatus}

theorem report_failTail (reason₁ reason₂ : CString) (xfail flaky : Option CString) :
    report (failTail lc t reason₁ xfail flaky g) = report (failTail lc t reason₂ xfail flaky g) := by
  rw [failTail,failTail]
  split_ifs <;> rfl

theorem report_doReturn (stdin1 stdout0 : Int) (r : Verdict × Globals) :
    report (doReturn stdin1 stdout0 r) = report r := rfl

theorem exitedAcceptably_zero {page : ChildState} (h : ExitedAcceptably os t page status) :
    ExitedAcceptably os t page (.exited 0) :=
  ⟨⟨0,rfl,.inl rfl⟩,h.nonneg,h.signal,h.noSignal,h.si⟩

theorem harnessError_zero (h : HarnessError os t w status) : HarnessError os t w (.exited 0) :=
  ⟨h.1,h.2.1,exitedAcceptably_zero h.2.2.1,h.2.2.2⟩

theorem StatusUnread.rejects (h : StatusUnread os t w) (x : UInt32) :
    ¬ Accepts os t w (.ofWord os x) ∧
      (HarnessError os t w (.ofWord os x) → xfailReason t w = none ∧ t.ctFlakyReason = none) := by
  rcases h with hpage | ⟨hsig,hnum⟩ | ⟨hsig,hno,hreasons⟩
  · exact ⟨fun ha => ha.1 hpage,fun he => absurd hpage he.2.2.2.1⟩
  · refine ⟨fun ha => ?_,fun he => absurd hsig he.1⟩
    rcases ha.2 with ⟨-,hx⟩ | ⟨hn,-⟩
    · exact hnum ((WaitStatus.exists_ofWord_signaled os t.ctSignum).mp ⟨x,hx⟩)
    · exact hn hsig
  · refine ⟨fun ha => hno ?_,fun he => hreasons (harnessError_zero he)⟩
    rcases ha.2 with ⟨hs,-⟩ | ⟨hn,hexit,hrest⟩
    · exact absurd hs hsig
    · exact ⟨ha.1,.inr ⟨hn,exitedAcceptably_zero hexit,hrest⟩⟩

theorem report_rejected (hno : ¬ Accepts os t w status)
    (hreasons : HarnessError os t w status → xfailReason t w = none ∧ t.ctFlakyReason = none) :
    report (afterChild lc os o t w status g) =
      report (failTail lc t [] (xfailReason t w) t.ctFlakyReason g) := by
  rcases afterChild_cases lc os o t w status g with ⟨hok,-⟩ | ⟨f,-,hc,he⟩
  · exact absurd hok hno
  · rw [he,report_failTail f.reason []]
    by_cases hf : f.cleared
    · obtain ⟨hx,hy⟩ := hreasons (hc.mp hf)
      rw [if_pos hf,if_pos hf,hx,hy]
    · rw [if_neg hf,if_neg hf]

theorem verdict_of_outcomes {status' : WaitStatus} (h : Accepts os t w status)
    (h' : ¬ Accepts os t w status') :
    (afterChild lc os o t w status g).1 ≠ (afterChild lc os o t w status' g).1 := by
  intro hc
  have ho := (afterChild_outcome lc os o t w status g).1.mpr h
  rw [hc,(afterChild_outcome lc os o t w status' g).2.mpr h'] at ho
  cases ho

/-- A harness error and a plain failure of a test with a reason are told apart. -/
theorem verdict_of_harnessError {status' : WaitStatus} (h : HarnessError os t w status)
    (hno : ¬ Accepts os t w status) (hno' : ¬ Accepts os t w status')
    (h' : ¬ HarnessError os t w status')
    (hreason : ¬ (xfailReason t w = none ∧ t.ctFlakyReason = none)) :
    (afterChild lc os o t w status g).1 ≠ (afterChild lc os o t w status' g).1 := by
  rcases afterChild_cases lc os o t w status g with ⟨hok,-⟩ | ⟨f,-,hc,he⟩
  · exact absurd hok hno
  rcases afterChild_cases lc os o t w status' g with ⟨hok,-⟩ | ⟨f',-,hc',he'⟩
  · exact absurd hok hno'
  have hf' : ¬ f'.cleared := fun hf => h' (hc'.mp hf)
  have hsome : ¬ ((xfailReason t w).isNone && t.ctFlakyReason.isNone) = true := by
    rw [Bool.and_eq_true,Option.isNone_iff_eq_none,Option.isNone_iff_eq_none]
    exact hreason
  rw [he,he',failTail_fst,failTail_fst,if_pos (hc.mpr h),if_pos (hc.mpr h),if_neg hf',if_neg hf',
    if_neg hsome]
  decide

theorem exists_verdicts_differ (lc : Libc) (o : Options) (h : ¬ StatusUnread os t w) :
    ∃ x y : UInt32, ∀ g, (afterChild lc os o t w (.ofWord os x) g).1 ≠
      (afterChild lc os o t w (.ofWord os y) g).1 := by
  rw [StatusUnread,not_or,not_or] at h
  obtain ⟨hpage,hsig,hexit⟩ := h
  by_cases hs : t.has CT_FLAG_SIGEXIT
  · have hnum : 1 ≤ t.ctSignum ∧ t.ctSignum ≤ 126 := by
      by_contra hc
      exact hsig ⟨hs,hc⟩
    obtain ⟨x,hx⟩ := (WaitStatus.exists_ofWord_signaled os t.ctSignum).mpr hnum
    refine ⟨x,0,fun g => verdict_of_outcomes ⟨hpage,.inl ⟨hs,hx⟩⟩ (fun ha => ?_)⟩
    rw [WaitStatus.ofWord_zero] at ha
    rcases ha.2 with ⟨-,hc⟩ | ⟨hc,-⟩
    · cases hc
    · exact hc hs
  · obtain ⟨y,hy⟩ := (WaitStatus.exists_ofWord_signaled os 1).mpr ⟨by decide,by decide⟩
    have hnot : ¬ ExitedAcceptably os t w.page (.signaled 1) := by
      rintro ⟨⟨n,hn,-⟩,-⟩
      cases hn
    have hrej : ¬ Accepts os t w (.ofWord os y) := by
      rw [hy]
      intro ha
      rcases ha.2 with ⟨hc,-⟩ | ⟨-,hc,-⟩
      · exact hs hc
      · exact hnot hc
    refine ⟨0,y,fun g => ?_⟩
    rw [WaitStatus.ofWord_zero]
    by_cases ha : Accepts os t w (.exited 0)
    · exact verdict_of_outcomes ha hrej
    · have hboth : HarnessError os t w (.exited 0) ∧
          ¬ (xfailReason t w = none ∧ t.ctFlakyReason = none) := by
        by_contra hc
        exact hexit ⟨hs,ha,fun he => by_contra fun hr => hc ⟨he,hr⟩⟩
      refine verdict_of_harnessError hboth.1 ha hrej (fun he => ?_) hboth.2
      rw [hy] at he
      exact hnot he.2.2.1

end Reports

/-- A call with an allowed name reads garbage in place of a status that is not there, and
no other. -/
theorem runTest_locals {lc : Libc} {os : OS} {o : Options} {t : CheriTest} {w : World}
    (g : Globals) (hname : disallowedPrefix t.ctName = none)
    (hwait : ChildRan o t w → w.waitpid ≠ none) (l l' : Locals) :
    runTest lc os o t w l g = runTest lc os o t w l' g := by
  have hinv := path_inv o t w
  rw [runTest_eq,runTest_eq]
  cases hp : path o t w with
  | disallowed p =>
    rw [hp,hname] at hinv
    cases hinv
  | filtered => rfl
  | skipped reason => rfl
  | left => rfl
  | noInput i j f => rfl
  | child i j =>
    obtain ⟨status,hs⟩ := Option.ne_none_iff_exists'.mp (hwait (.of_path hp))
    simp only [hs,Option.getD_some]

theorem report_child {lc : Libc} {os : OS} {o : Options} {t : CheriTest} {w : World}
    {i j : Int × Int} (hp : path o t w = .child i j) (hw : w.waitpid = none) (l : Locals)
    (g : Globals) : (runTest lc os o t w l g).map report =
      .ok (report (afterChild lc os o t w l.status (atChild t w i j g))) := by
  rw [runTest_eq,hp,hw,Option.getD_none,← report_doReturn i.2 j.1]
  rfl

theorem report_disallowed {lc : Libc} {os : OS} {o : Options} {t : CheriTest} {w : World}
    {p : CString} (hp : disallowedPrefix t.ctName = some p) (l : Locals) (g : Globals) :
    (runTest lc os o t w l g).map report =
      .ok (report (failTail lc t [] none l.flakyReason g.xoOpenInstance)) := by
  have hpath : path o t w = .disallowed p := by rw [path,hp]
  rw [runTest_eq,hpath]
  exact congrArg Except.ok ((report_doReturn _ _ _).trans (report_failTail _ _ _ _))

/-- The verdict and the counters of a call are the same for any garbage in its local
variables exactly when `Determined` holds. -/
theorem report_independent_iff (lc : Libc) (os : OS) (o : Options) (t : CheriTest) (w : World) :
    (∀ (x y : Garbage) (g : Globals), (runTest lc os o t w (x.locals os) g).map report =
      (runTest lc os o t w (y.locals os) g).map report) ↔ Determined os o t w := by
  constructor
  · intro h
    constructor
    · by_contra hname
      obtain ⟨p,hp⟩ := Option.ne_none_iff_exists'.mp hname
      have heq := h ⟨0,(0,0),(0,0),none⟩ ⟨0,(0,0),(0,0),some []⟩ .initial
      rw [report_disallowed hp,report_disallowed hp] at heq
      have hreport := Except.ok.inj heq
      have hverdict : Verdict.fail = .xfail := congrArg Prod.fst hreport
      cases hverdict
    · intro hran
      by_contra hno
      rw [not_or,not_not] at hno
      obtain ⟨i,j,hp⟩ := hran.path_eq
      obtain ⟨x,y,hdiff⟩ := exists_verdicts_differ lc o hno.2
      have heq := h ⟨x,(0,0),(0,0),none⟩ ⟨y,(0,0),(0,0),none⟩ .initial
      rw [report_child hp hno.1,report_child hp hno.1] at heq
      have hreport := Except.ok.inj heq
      have hverdict := congrArg Prod.fst hreport
      exact hdiff _ hverdict
  · rintro ⟨hname,hran⟩ x y g
    by_cases hwait : ChildRan o t w → w.waitpid ≠ none
    · rw [runTest_locals g hname hwait]
    · push Not at hwait
      obtain ⟨hchild,hw⟩ := hwait
      obtain ⟨i,j,hp⟩ := hchild.path_eq
      have hunread := (hran hchild).resolve_left (fun hc => hc hw)
      have hx := hunread.rejects x.status
      have hy := hunread.rejects y.status
      rw [report_child hp hw,report_child hp hw]
      exact congrArg _ ((report_rejected hx.1 hx.2).trans (report_rejected hy.1 hy.2).symm)

/-- One test with a disallowed name fails, or fails as expected, as the stack has it. -/
theorem report_garbage : ∃ r₁ r₂,
    runTest plainLibc .freeBSD ⟨false,0⟩ { plainTest with ctName := cstr "test_fault" } plainWorld
      (Garbage.locals .freeBSD ⟨0,(0,0),(0,0),none⟩) .initial = .ok r₁ ∧
    runTest plainLibc .freeBSD ⟨false,0⟩ { plainTest with ctName := cstr "test_fault" } plainWorld
      (Garbage.locals .freeBSD ⟨0,(0,0),(0,0),some []⟩) .initial = .ok r₂ ∧
    report r₁ = (.fail,⟨0,0,1,0,0,0,0⟩) ∧ report r₂ = (.xfail,⟨0,0,0,0,1,0,1⟩) :=
  ⟨_,_,rfl,rfl,rfl,rfl⟩

end CheriOsTest.Harness
