import CheriOsTest.Verdicts
set_option autoImplicit false

/-! Result reports. The processes of a test share one page and end in a report;
every report is a sequence of stores, and the stores of the processes interleave.
An exec'd helper has no page and is none of these processes. -/

namespace CheriOsTest.Harness
open CheriOsTest.CStrings CheriOsTest.Programs

inductive Store where
  | warn : Bool → Store
  | testresult : Int → Store
  | str : Nat → List UInt8 → Store
  | signum : Int → Store
  | siCode : Int → Store
  | siTrapno : Int → Store
  | siAddr : Pointer → Store
  | siAddrTag : Bool → Store
  deriving DecidableEq

/-- The bytes `bs` over an array from position `off` on. -/
def setBytes {n : Nat} (v : Vector UInt8 n) (off : Nat) (bs : List UInt8) : Vector UInt8 n :=
  .ofFn fun i => if off ≤ i then bs.getD (i-off) v[i] else v[i]

def Store.apply (page : ChildState) : Store → ChildState
  | .warn b => { page with ccsWarn := b }
  | .testresult r => { page with ccsTestresult := r }
  | .str off bs => { page with ccsTestresultStr := setBytes page.ccsTestresultStr off bs }
  | .signum n => { page with ccsSignum := n }
  | .siCode n => { page with ccsSiCode := n }
  | .siTrapno n => { page with ccsSiTrapno := n }
  | .siAddr p => { page with ccsSiAddr := p }
  | .siAddrTag b => { page with ccsSiAddrTag := b }

structure SigInfo where
  siSigno : Int
  siCode : Int
  siTrapno : Int
  siAddr : Pointer

/-- How a process ends. The message of a failure is `none` when `vsnprintf` fails
on it, and `strerror` is the text of the code that `errc` and `err` add. -/
inductive Report where
  | failureErrx (msg : Option CString)
  | failureErrc (msg : Option CString) (strerror : CString)
  | success
  | successWithWarn (msg : CString)
  | signal (info : SigInfo)
  | exit (status : WaitStatus)

structure Abi where
  os : OS
  purecap : Bool

/-- The stores of `vsnprintf(ccs_testresult_str + off, size - off, ..)`. -/
def storeMessage (off : Nat) (s : CString) : Store :=
  .str off (snprintf (TESTRESULT_STR_LEN-off) s ++ [0])

def failureErrxStores : Option CString → List Store
  | none => [.warn false,.testresult TESTRESULT_FAILURE]
  | some s => [.warn false,.testresult TESTRESULT_FAILURE,storeMessage 0 s]

def failureErrcStores (strerror : CString) : Option CString → List Store
  | none => [.warn false,.testresult TESTRESULT_FAILURE]
  | some s =>
    if TESTRESULT_STR_LEN ≤ s.length then
      -- no room for further strings
      [.warn false,.testresult TESTRESULT_FAILURE,storeMessage 0 s]
    else
      [.warn false,.testresult TESTRESULT_FAILURE,storeMessage 0 s,
        storeMessage s.length (cstr ": " ++ strerror)]

def successStores : List Store := [.testresult TESTRESULT_SUCCESS,.warn false]

/-- `strncpy` fills what the message leaves of the array with zeros. -/
def successWithWarnStores (msg : CString) : List Store :=
  [.str 0 (msg.take TESTRESULT_STR_LEN ++ List.replicate (TESTRESULT_STR_LEN-msg.length) 0),
    .str (TESTRESULT_STR_LEN-1) [0],.warn true,.testresult TESTRESULT_SUCCESS]

/-- `signal_handler`. A purecap system keeps the tag of the address beside it. -/
def signalHandlerStores (abi : Abi) (info : SigInfo) : List Store :=
  [.signum info.siSigno,.siCode info.siCode] ++
    (if abi.os = .freeBSD then [.siTrapno info.siTrapno] else []) ++
    if abi.purecap then
      [.siAddrTag info.siAddr.tag,.siAddr { info.siAddr with tag := false }]
    else [.siAddrTag false,.siAddr info.siAddr]

def Report.stores (abi : Abi) : Report → List Store
  | .failureErrx msg => failureErrxStores msg
  | .failureErrc msg strerror => failureErrcStores strerror msg
  | .success => successStores
  | .successWithWarn msg => successWithWarnStores msg
  | .signal info => signalHandlerStores abi info
  | .exit _ => []

def Report.status : Report → WaitStatus
  | .failureErrx _ | .failureErrc _ _ | .signal _ => .exited 70
  | .success | .successWithWarn _ => .exited 0
  | .exit status => status

def Report.IsFailure : Report → Prop
  | .failureErrx _ | .failureErrc _ _ => True
  | _ => False

/-- A process has the stores of its report still to do. -/
inductive Process where
  | running
  | reporting (r : Report) (todo : List Store)
  | ended (r : Report)

/-- The processes of a test; the first is the child that the harness forked. -/
structure TestState where
  page : ChildState
  procs : List Process

inductive Event where
  | fork : Nat → Event
  | report : Nat → Report → Event
  | store : Nat → Event
  | exit : Nat → Event

def TestState.start : TestState := ⟨.zeroed,[.running]⟩

def step (abi : Abi) (s : TestState) : Event → Option TestState
  | .fork p =>
    match s.procs[p]? with
    | some .running => some { s with procs := s.procs ++ [.running] }
    | _ => none
  | .report p r =>
    match s.procs[p]? with
    | some .running => some { s with procs := s.procs.set p (.reporting r (r.stores abi)) }
    | _ => none
  | .store p =>
    match s.procs[p]? with
    | some (.reporting r (st :: todo)) =>
      some ⟨st.apply s.page,s.procs.set p (.reporting r todo)⟩
    | _ => none
  | .exit p =>
    match s.procs[p]? with
    | some (.reporting r []) => some { s with procs := s.procs.set p (.ended r) }
    | _ => none

/-- What one step can do: a process is added, or one process moves on, and only a
store touches the page. -/
theorem step_cases {abi : Abi} {s s' : TestState} {e : Event} (h : step abi s e = some s') :
    (∃ p, e = .fork p ∧ s' = { s with procs := s.procs ++ [.running] }) ∨
    (∃ p r, e = .report p r ∧
      s' = { s with procs := s.procs.set p (.reporting r (r.stores abi)) }) ∨
    (∃ p r st todo, e = .store p ∧ s.procs[p]? = some (.reporting r (st :: todo)) ∧
      s' = ⟨st.apply s.page,s.procs.set p (.reporting r todo)⟩) ∨
    ∃ p r, e = .exit p ∧ s.procs[p]? = some (.reporting r []) ∧
      s' = { s with procs := s.procs.set p (.ended r) } := by
  cases e with
  | fork p =>
    simp only [step] at h
    split at h
    · exact .inl ⟨p,rfl,(Option.some.inj h).symm⟩
    · cases h
  | report p r =>
    simp only [step] at h
    split at h
    · exact .inr (.inl ⟨p,r,rfl,(Option.some.inj h).symm⟩)
    · cases h
  | store p =>
    simp only [step] at h
    split at h
    next r st todo hp => exact .inr (.inr (.inl ⟨p,r,st,todo,rfl,hp,(Option.some.inj h).symm⟩))
    next => cases h
  | exit p =>
    simp only [step] at h
    split at h
    next r hp => exact .inr (.inr (.inr ⟨p,r,rfl,hp,(Option.some.inj h).symm⟩))
    next => cases h

/-- The step does not store SUCCESS while the page says FAILURE. -/
def NoOverwrite (s : TestState) (e : Event) : Prop :=
  ∀ p r todo, e = .store p →
    s.procs[p]? = some (.reporting r (.testresult TESTRESULT_SUCCESS :: todo)) →
    s.page.ccsTestresult ≠ TESTRESULT_FAILURE

def Process.HasFailed : Process → Prop
  | .running => False
  | .reporting r todo => r.IsFailure ∧ .testresult TESTRESULT_FAILURE ∉ todo
  | .ended r => r.IsFailure

/-- What a process still has to store is the end of its report. -/
def Process.OnTrack (abi : Abi) : Process → Prop
  | .reporting r todo => todo <:+ r.stores abi
  | _ => True

theorem testresult_mem_stores {abi : Abi} {r : Report} {v : Int}
    (h : .testresult v ∈ r.stores abi) :
    (r.IsFailure ∧ v = TESTRESULT_FAILURE) ∨ (¬ r.IsFailure ∧ v = TESTRESULT_SUCCESS) := by
  cases r with
  | failureErrx msg =>
    cases msg <;> simp_all [Report.stores,failureErrxStores,storeMessage,Report.IsFailure]
  | failureErrc msg strerror =>
    cases msg with
    | none => simp_all [Report.stores,failureErrcStores,Report.IsFailure]
    | some s =>
      by_cases hs : TESTRESULT_STR_LEN ≤ s.length <;>
        simp_all [Report.stores,failureErrcStores,storeMessage,Report.IsFailure]
  | success => simp_all [Report.stores,successStores,Report.IsFailure]
  | successWithWarn msg => simp_all [Report.stores,successWithWarnStores,Report.IsFailure]
  | signal info =>
    simp only [Report.stores,signalHandlerStores] at h
    split_ifs at h <;> simp at h
  | exit status => simp [Report.stores] at h

theorem failure_stores {abi : Abi} {r : Report} (h : r.IsFailure) :
    .testresult TESTRESULT_FAILURE ∈ r.stores abi := by
  cases r with
  | failureErrx msg => cases msg <;> simp [Report.stores,failureErrxStores]
  | failureErrc msg strerror =>
    cases msg with
    | none => simp [Report.stores,failureErrcStores]
    | some s =>
      by_cases hs : TESTRESULT_STR_LEN ≤ s.length <;> simp [Report.stores,failureErrcStores,hs]
  | _ => exact h.elim

theorem Store.apply_testresult {page : ChildState} {st : Store}
    (h : ∀ v, st ≠ .testresult v) : (st.apply page).ccsTestresult = page.ccsTestresult := by
  cases st with
  | testresult v => exact absurd rfl (h v)
  | _ => simp only [Store.apply]

/-- The invariant of runs that never overwrite a failure. -/
structure Kept (abi : Abi) (s : TestState) : Prop where
  onTrack : ∀ q ∈ s.procs, q.OnTrack abi
  failed : ∀ q ∈ s.procs, q.HasFailed → s.page.ccsTestresult = TESTRESULT_FAILURE

theorem Kept.set {abi : Abi} {s : TestState} {page : ChildState} {p : Nat} {q₀ : Process}
    (hk : Kept abi s) (ht : q₀.OnTrack abi)
    (hpage : s.page.ccsTestresult = TESTRESULT_FAILURE →
      page.ccsTestresult = TESTRESULT_FAILURE)
    (hf : q₀.HasFailed → page.ccsTestresult = TESTRESULT_FAILURE) :
    Kept abi ⟨page,s.procs.set p q₀⟩ := by
  constructor
  · intro q hq
    rcases List.mem_or_eq_of_mem_set hq with hq | rfl
    · exact hk.onTrack q hq
    · exact ht
  · intro q hq hq'
    rcases List.mem_or_eq_of_mem_set hq with hq | rfl
    · exact hpage (hk.failed q hq hq')
    · exact hf hq'

theorem Kept.step {abi : Abi} {s s' : TestState} {e : Event} (hk : Kept abi s)
    (hno : NoOverwrite s e) (h : step abi s e = some s') : Kept abi s' := by
  rcases step_cases h with ⟨p,rfl,rfl⟩ | ⟨p,r,rfl,rfl⟩ | ⟨p,r,st,todo,rfl,hp,rfl⟩ |
    ⟨p,r,rfl,hp,rfl⟩
  · constructor
    · intro q hq
      rcases List.mem_append.mp hq with hq | hq
      · exact hk.onTrack q hq
      · rw [List.mem_singleton.mp hq]; trivial
    · intro q hq hf
      rcases List.mem_append.mp hq with hq | hq
      · exact hk.failed q hq hf
      · rw [List.mem_singleton.mp hq] at hf; exact hf.elim
  · exact hk.set (List.suffix_refl _) id fun hf => absurd (failure_stores hf.1) hf.2
  · have hmem := List.mem_of_getElem? hp
    have htrack : st :: todo <:+ r.stores abi := hk.onTrack _ hmem
    have ht : todo <:+ r.stores abi := (List.suffix_cons st todo).trans htrack
    by_cases hst : ∃ v, st = .testresult v
    · obtain ⟨v,rfl⟩ := hst
      rcases testresult_mem_stores (htrack.subset List.mem_cons_self) with ⟨-,rfl⟩ | ⟨hr,rfl⟩
      · exact hk.set ht (fun _ => rfl) (fun _ => rfl)
      · -- the only store of SUCCESS that the condition allows
        have hpage := hno p r todo rfl hp
        exact hk.set ht (fun hf => absurd hf hpage) (fun hf => absurd hf.1 hr)
    · have hne : ∀ v, st ≠ .testresult v := fun v hv => hst ⟨v,hv⟩
      have hsame : (st.apply s.page).ccsTestresult = s.page.ccsTestresult :=
        Store.apply_testresult hne
      refine hk.set ht (fun hf => by rw [hsame,hf]) fun hf => ?_
      rw [hsame]
      refine hk.failed _ hmem ⟨hf.1,fun hc => ?_⟩
      rcases List.mem_cons.mp hc with hc | hc
      · exact hne _ hc.symm
      · exact hf.2 hc
  · exact hk.set trivial id fun hf =>
      hk.failed _ (List.mem_of_getElem? hp) ⟨hf,List.not_mem_nil⟩

theorem Kept.start (abi : Abi) : Kept abi .start := by
  constructor
  · intro q hq
    rw [List.mem_singleton.mp hq]; trivial
  · intro q hq hf
    rw [List.mem_singleton.mp hq] at hf; exact hf.elim

def FailureReported (s : TestState) : Prop := ∃ r, .ended r ∈ s.procs ∧ r.IsFailure

theorem failure_not_accepted {lc : Libc} {os : OS} {o : Options} {t : CheriTest} {w : World}
    {l : Locals} {g : Globals} {r : Verdict × Globals}
    (hw : w.page.ccsTestresult = TESTRESULT_FAILURE)
    (h : runTest lc os o t w l g = .ok r) : r.1.outcome ≠ .accepted := by
  cases runTest_returns h with
  | disallowed _ =>
    rw [doReturn,failTail_rejected]
    decide
  | filtered _ _ => exact fun hc => (nomatch hc)
  | skipped _ _ _ => exact fun hc => (nomatch hc)
  | noInput _ _ _ _ =>
    rw [doReturn,failTail_rejected]
    decide
  | child _ _ _ _ =>
    intro hc
    rw [doReturn] at hc
    exact ((afterChild_outcome lc os o t w _ _).1.mp hc).1 hw

/-- A reported failure is kept: no run that never overwrites FAILURE with SUCCESS
ends in an accepted test once some process has reported a failure. -/
theorem failure_kept (lc : Libc) (o : Options) (t : CheriTest) (w : World) (l : Locals)
    (g g' : Globals) (abi : Abi) (s : TestState) (v : Verdict)
    (hs : Reached (step abi) NoOverwrite .start s) (hf : FailureReported s)
    (hw : w.page = s.page) (h : runTest lc abi.os o t w l g = .ok (v,g')) :
    v ≠ .pass ∧ v ≠ .xpass := by
  have hk : Kept abi s :=
    hs.invariant (Kept abi) (Kept.start abi) (fun _ _ _ hi hok hst => hi.step hok hst)
  obtain ⟨r,hr,hfail⟩ := hf
  have hpage : w.page.ccsTestresult = TESTRESULT_FAILURE := by
    rw [hw]
    exact hk.failed _ hr hfail
  have hout := failure_not_accepted hpage h
  constructor
  · intro hv
    subst hv
    exact hout rfl
  · intro hv
    subst hv
    exact hout rfl

def lostTag : Report := .failureErrx (some (cstr "tag lost"))

/-- A forked process has reported success, then its parent the failure. -/
def failedState : TestState :=
  ⟨(successStores ++ lostTag.stores ⟨.freeBSD,true⟩).foldl (fun page st => st.apply page) .zeroed,
    [.ended lostTag,.ended .success]⟩

theorem failedState_reached :
    Reached (step ⟨.freeBSD,true⟩) NoOverwrite .start failedState := by
  have hfork := Reached.next (i := .fork 0)
    (.start : Reached (step ⟨.freeBSD,true⟩) NoOverwrite .start .start)
    (fun _ _ _ he => nomatch he) rfl
  have h₁ := hfork.next (i := .report 1 .success) (fun _ _ _ he => nomatch he) rfl
  have h₂ := h₁.next (i := .store 1) (fun _ _ _ _ _ => by decide) rfl
  have h₃ := h₂.next (i := .store 1) (fun _ _ _ _ _ => by decide) rfl
  have hchild := h₃.next (i := .exit 1) (fun _ _ _ he => nomatch he) rfl
  have h₄ := hchild.next (i := .report 0 lostTag) (fun _ _ _ he => nomatch he) rfl
  have h₅ := h₄.next (i := .store 0) (fun _ _ _ _ _ => by decide) rfl
  have h₆ := h₅.next (i := .store 0) (fun _ _ _ _ _ => by decide) rfl
  -- the store of the message is the only one made on a page that says FAILURE
  have h₇ := h₆.next (i := .store 0) (fun _ _ _ he hp => by cases he; cases hp) rfl
  exact h₇.next (i := .exit 0) (fun _ _ _ he => nomatch he) rfl

theorem failure_kept_failedState : ∃ (v : Verdict) (g' : Globals),
    runTest plainLibc .freeBSD ⟨false,0⟩ plainTest
      { plainWorld with page := failedState.page } plainLocals .initial = .ok (v,g') ∧
    v ≠ .pass ∧ v ≠ .xpass :=
  ⟨.fail,_,rfl,failure_kept plainLibc ⟨false,0⟩ plainTest
    { plainWorld with page := failedState.page } plainLocals .initial _ ⟨.freeBSD,true⟩ failedState
    .fail failedState_reached ⟨_,.head _,trivial⟩ rfl rfl⟩

/-- A forked process reports a failure and ends; its parent ignores that, reports
success, and the test passes. -/
theorem failure_lost : ∃ s g', Reached (step ⟨.freeBSD,true⟩) (fun _ _ => True) .start s ∧
    FailureReported s ∧ s.procs[0]? = some (.ended .success) ∧
    runTest plainLibc .freeBSD ⟨false,0⟩ plainTest
      { plainWorld with page := s.page, waitpid := some Report.success.status }
      plainLocals .initial = .ok (.pass,g') := by
  let events : List Event := [.fork 0,.report 1 (.failureErrx (some (cstr "tag transfer"))),
    .store 1,.store 1,.store 1,.exit 1,.report 0 .success,.store 0,.store 0,.exit 0]
  refine ⟨_,_,Reached.of_foldlM events .start rfl,⟨_,.tail _ (.head _),trivial⟩,rfl,rfl⟩

end CheriOsTest.Harness
