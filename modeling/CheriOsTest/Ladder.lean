import CheriOsTest.RunTest
set_option autoImplicit false

/-! The ladder of checks that follows `waitpid`. It accepts a child exactly when
`Accepts` holds, and it drops the reasons exactly for a `HarnessError`. -/

namespace CheriOsTest.Harness
open CheriOsTest.CStrings CheriOsTest.Programs

structure SiMatches (os : OS) (t : CheriTest) (page : ChildState) : Prop where
  code : t.has CT_FLAG_SI_CODE → page.ccsSiCode = t.ctSiCode
  trapno : os = .freeBSD → t.has CT_FLAG_SI_TRAPNO → page.ccsSiTrapno = t.ctSiTrapno
  addr : t.has CT_FLAG_SI_ADDR → page.ccsSiAddrExpected = page.ccsSiAddr ∧
    page.ccsSiAddrExpectedTag = page.ccsSiAddrTag

/-- The child ended by itself with one of the two statuses the harness knows,
with the signal that the test asks for and no other. -/
structure ExitedAcceptably (os : OS) (t : CheriTest) (page : ChildState)
    (status : WaitStatus) : Prop where
  exited : ∃ n, status = .exited n ∧ (n.toNat = 0 ∨ n.toNat = EX_SOFTWARE)
  nonneg : 0 ≤ page.ccsSignum
  signal : t.has CT_FLAG_SIGNAL → page.ccsSignum = t.ctSignum
  noSignal : ¬ t.has CT_FLAG_SIGNAL → page.ccsSignum = 0
  si : SiMatches os t page

/-- What the harness reads of the output, up to its first NUL, is what the test expects; a
test that expects nothing and does not ignore its output has written nothing. -/
structure StdoutOk (t : CheriTest) (w : World) : Prop where
  expected : t.has CT_FLAG_STDOUT_STRING →
    ∃ out, w.stdout = .ok out ∧ streq (out.take (TEST_BUFFER_LEN-1)) t.ctStdoutString
  silent : ¬ t.has CT_FLAG_STDOUT_STRING → ¬ t.has CT_FLAG_STDOUT_IGNORE →
    ∀ out, w.stdout = .ok out → out = []

/-- The page does not say FAILURE, and the child either was killed by the signal
that the test waits for, or exited acceptably with the output it should have. -/
def Accepts (os : OS) (t : CheriTest) (w : World) (status : WaitStatus) : Prop :=
  w.page.ccsTestresult ≠ TESTRESULT_FAILURE ∧
    ((t.has CT_FLAG_SIGEXIT ∧ status = .signaled t.ctSignum) ∨
      (¬ t.has CT_FLAG_SIGEXIT ∧ ExitedAcceptably os t w.page status ∧
        (¬ t.has CT_FLAG_SIGNAL → w.page.ccsTestresult = TESTRESULT_SUCCESS) ∧
        StdoutOk t w))

/-- The child exited acceptably and has said neither SUCCESS nor FAILURE, though
the test asks for no signal. -/
def HarnessError (os : OS) (t : CheriTest) (w : World) (status : WaitStatus) : Prop :=
  ¬ t.has CT_FLAG_SIGEXIT ∧ ¬ t.has CT_FLAG_SIGNAL ∧ ExitedAcceptably os t w.page status ∧
    w.page.ccsTestresult ≠ TESTRESULT_FAILURE ∧ w.page.ccsTestresult ≠ TESTRESULT_SUCCESS

section Checks

variable {lc : Libc} {os : OS} {o : Options} {t : CheriTest} {w : World}
  {page : ChildState} {status : WaitStatus}

theorem checkSigexit_eq_ok : checkSigexit t status = .ok () ↔ status = .signaled t.ctSignum := by
  cases status <;> simp [checkSigexit,failIf_bind_eq_ok,failIf_eq_ok,WaitStatus.WIFSIGNALED,
    WaitStatus.WTERMSIG]

theorem checkExit_eq_ok : checkExit status = .ok () ↔
    ∃ n, status = .exited n ∧ (n.toNat = 0 ∨ n.toNat = EX_SOFTWARE) := by
  cases status with
  | exited n =>
    simp only [checkExit,failIf_bind_eq_ok,failIf_eq_ok]
    simp [WaitStatus.WIFSIGNALED,WaitStatus.WIFEXITED,WaitStatus.WEXITSTATUS,
      or_iff_not_imp_left]
  | _ =>
    simp only [checkExit,failIf_bind_eq_ok]
    simp [WaitStatus.WIFSIGNALED,WaitStatus.WIFEXITED]

theorem checkSignal_eq_ok : checkSignal lc os t page = .ok () ↔
    0 ≤ page.ccsSignum ∧ (t.has CT_FLAG_SIGNAL → page.ccsSignum = t.ctSignum) ∧
      SiMatches os t page := by
  simp only [checkSignal,failIf_bind_eq_ok,failIf_eq_ok,not_lt,not_and,not_or,not_not,
    cheriPtrEqualExact,decide_eq_true_eq,ne_eq]
  constructor
  · intro h
    obtain ⟨h₀,h₁,h₂,h₃,h₄⟩ := h
    exact ⟨h₀,h₁,h₂,h₃,h₄⟩
  · intro h
    obtain ⟨h₀,h₁,h₂,h₃,h₄⟩ := h
    exact ⟨h₀,h₁,h₂,h₃,h₄⟩

theorem checkResult_eq_ok : checkResult t page = .ok () ↔
    (¬ t.has CT_FLAG_SIGNAL → page.ccsSignum = 0 ∧ page.ccsTestresult = TESTRESULT_SUCCESS) := by
  by_cases hs : t.has CT_FLAG_SIGNAL
  · simp [checkResult,hs]
  · rw [checkResult,if_neg hs]
    simp only [failIf_bind_eq_ok,failIf_eq_ok,not_not,ne_eq]
    constructor
    · exact fun h _ => ⟨h.1,h.2.2⟩
    · intro h
      obtain ⟨h₀,h₁⟩ := h hs
      exact ⟨h₀,by rw [h₁]; decide,h₁⟩

theorem checkStdout_eq_ok : checkStdout o t w = .ok () ↔ StdoutOk t w := by
  by_cases hs : t.has CT_FLAG_STDOUT_STRING
  · have hok : StdoutOk t w ↔
        ∃ out, w.stdout = .ok out ∧ streq (out.take (TEST_BUFFER_LEN-1)) t.ctStdoutString :=
      ⟨fun h => h.expected hs,fun h => ⟨fun _ => h,fun hn => absurd hs hn⟩⟩
    rw [hok]
    cases hr : w.stdout <;> simp [checkStdout,readStdout,Except.map,hs,hr,failIf_eq_ok]
  by_cases hi : t.has CT_FLAG_STDOUT_IGNORE
  · have hok : StdoutOk t w := ⟨fun h => absurd h hs,fun _ h => absurd hi h⟩
    simp [checkStdout,hs,hi,hok]
  · have hok : StdoutOk t w ↔ ∀ out, w.stdout = .ok out → out = [] :=
      ⟨fun h => h.silent hs hi,fun h => ⟨fun hn => absurd hn hs,fun _ _ => h⟩⟩
    rw [hok]
    cases hr : w.stdout <;>
      simp [checkStdout,readStdout,Except.map,hs,hi,hr,failIf_eq_ok,TEST_BUFFER_LEN]

theorem checkChild_eq_ok : checkChild lc os o t w status = .ok () ↔ Accepts os t w status := by
  rw [checkChild,failIf_bind_eq_ok,Accepts]
  refine and_congr_right fun _ => ?_
  by_cases hx : t.has CT_FLAG_SIGEXIT
  · rw [if_pos hx,checkSigexit_eq_ok]
    simp [hx]
  · rw [if_neg hx]
    simp only [bind_unit_eq_ok,checkExit_eq_ok,checkSignal_eq_ok,checkResult_eq_ok,checkStdout_eq_ok,hx]
    constructor
    · intro h
      obtain ⟨he,⟨hn,hs,hsi⟩,hr,ho⟩ := h
      exact .inr ⟨by decide,⟨he,hn,hs,fun h => (hr h).1,hsi⟩,fun h => (hr h).2,ho⟩
    · intro h
      rcases h with ⟨h,-⟩ | ⟨-,hx,hr,ho⟩
      · cases h
      · exact ⟨hx.exited,⟨hx.nonneg,hx.signal,hx.si⟩,fun h => ⟨hx.noSignal h,hr h⟩,ho⟩

/-- A failure that leaves both reasons as they are. -/
def NotCleared (x : Except Failure Unit) : Prop := ∀ f, x = .error f → f.cleared = false

theorem notCleared_ok : NotCleared (.ok ()) := fun _ h => nomatch h

theorem notCleared_error (s : CString) : NotCleared (.error (failure s)) := by
  intro f h
  cases h
  rfl

theorem notCleared_failIf (c : Prop) [Decidable c] (s : CString) :
    NotCleared (failIf c (failure s)) := by
  intro f h
  rw [failIf_eq_error] at h
  rw [← h.2,failure]

theorem NotCleared.bind {x : Except Failure Unit} {k : Unit → Except Failure Unit}
    (hx : NotCleared x) (hk : NotCleared (k ())) : NotCleared (x >>= k) := by
  intro f h
  rcases (bind_eq_error x k f).mp h with h | ⟨_,_,h⟩
  · exact hx f h
  · exact hk f h

theorem checkSigexit_notCleared : NotCleared (checkSigexit t status) :=
  .bind (notCleared_failIf _ _) (notCleared_failIf _ _)

theorem checkExit_notCleared : NotCleared (checkExit status) :=
  .bind (notCleared_failIf _ _) (.bind (notCleared_failIf _ _) (notCleared_failIf _ _))

theorem checkSignal_notCleared : NotCleared (checkSignal lc os t page) :=
  .bind (notCleared_failIf _ _) (.bind (notCleared_failIf _ _) (.bind (notCleared_failIf _ _)
    (.bind (notCleared_failIf _ _) (notCleared_failIf _ _))))

theorem checkStdout_notCleared : NotCleared (checkStdout o t w) := by
  by_cases hs : t.has CT_FLAG_STDOUT_STRING
  · rw [checkStdout,if_pos hs]
    cases readStdout w with
    | error errno => exact notCleared_error _
    | ok buffer => exact notCleared_failIf _ _
  by_cases hi : t.has CT_FLAG_STDOUT_IGNORE
  · rw [checkStdout,if_neg hs,if_pos hi]
    exact notCleared_ok
  · rw [checkStdout,if_neg hs,if_neg hi]
    cases readStdout w with
    | error errno => exact notCleared_ok
    | ok buffer => exact notCleared_failIf _ _

theorem checkResult_cleared {f : Failure} (h : checkResult t page = .error f) :
    f.cleared = true ↔ page.ccsSignum = 0 := by
  by_cases hs : t.has CT_FLAG_SIGNAL
  · rw [checkResult,if_pos hs] at h
    cases h
  · rw [checkResult,if_neg hs,failIf_bind_eq_error,failIf_bind_eq_error,failIf_eq_error] at h
    rcases h with ⟨hn,rfl⟩ | ⟨hn,⟨-,rfl⟩ | ⟨-,-,rfl⟩⟩
    · simp [failure,hn]
    · simp [harnessError,not_not.mp hn]
    · simp [harnessError,not_not.mp hn]

/-- The reasons are dropped for a harness error and for nothing else. -/
theorem checkChild_cleared {f : Failure} (h : checkChild lc os o t w status = .error f) :
    f.cleared = true ↔ HarnessError os t w status := by
  rw [checkChild,failIf_bind_eq_error] at h
  rcases h with ⟨hf,rfl⟩ | ⟨hf,h⟩
  · simp [testFailure,HarnessError,hf]
  by_cases hx : t.has CT_FLAG_SIGEXIT
  · rw [if_pos hx] at h
    simp [checkSigexit_notCleared f h,HarnessError,hx]
  rw [if_neg hx,bind_eq_error] at h
  rcases h with h | ⟨_,he,h⟩
  · have hno : ¬ HarnessError os t w status := by
      intro hh
      rw [checkExit_eq_ok.mpr hh.2.2.1.exited] at h
      cases h
    simp [checkExit_notCleared f h,hno]
  rw [bind_eq_error] at h
  rcases h with h | ⟨_,hsig,h⟩
  · have hno : ¬ HarnessError os t w status := by
      intro hh
      have hok := hh.2.2.1
      rw [checkSignal_eq_ok.mpr ⟨hok.nonneg,hok.signal,hok.si⟩] at h
      cases h
    simp [checkSignal_notCleared f h,hno]
  rw [bind_eq_error] at h
  obtain ⟨hn,hs,hsi⟩ := checkSignal_eq_ok.mp hsig
  rcases h with h | ⟨_,hr,h⟩
  · rw [checkResult_cleared h]
    have hbad : ¬ (¬ t.has CT_FLAG_SIGNAL →
        w.page.ccsSignum = 0 ∧ w.page.ccsTestresult = TESTRESULT_SUCCESS) := by
      rw [← checkResult_eq_ok,h]
      exact fun hc => nomatch hc
    obtain ⟨hns,hbad⟩ := Classical.not_imp.mp hbad
    constructor
    · intro h₀
      exact ⟨hx,hns,⟨checkExit_eq_ok.mp he,hn,hs,fun _ => h₀,hsi⟩,hf,fun h₁ => hbad ⟨h₀,h₁⟩⟩
    · exact fun hh => hh.2.2.1.noSignal hh.2.1
  · have hno : ¬ HarnessError os t w status := by
      intro hh
      exact hh.2.2.2.2 (checkResult_eq_ok.mp hr hh.2.1).2
    simp [checkStdout_notCleared f h,hno]

end Checks
end CheriOsTest.Harness
