import CheriOsTest.DescriptorTable
import CheriOsTest.Verdicts
set_option autoImplicit false

/-! The descriptors of the harness across one call of `cheriostest_run_test`. -/

namespace CheriOsTest.Harness
open CheriOsTest.CStrings CheriOsTest.Programs CheriOsTest.DescriptorTable

/-- The calls of `pipe` and `close` on each way through the parent. -/
def descriptorCalls (l : Locals) (fds : Table Int) : Path → Table Int
  | .disallowed _ => (fds.close l.pipefdStdin.2).close l.pipefdStdout.1
  | .filtered | .skipped _ | .left => fds
  | .noInput i j _ => (((fds.pipe i).pipe j).close i.2).close j.1
  | .child i j => (((((fds.pipe i).pipe j).close i.1).close j.2).close i.2).close j.1

/-- The account of the call that starts with the descriptors `fds`. -/
def account (o : Options) (t : CheriTest) (w : World) (l : Locals) (fds : Finset Int) :
    Table Int :=
  descriptorCalls l (.look fds) (path o t w)

section Paths

variable {lc : Libc} {os : OS} {o : Options} {t : CheriTest} {w : World} {l : Locals}
  {g : Globals}

theorem doReturn_fds {r : Verdict × Globals} (stdin1 stdout0 : Int) :
    (doReturn stdin1 stdout0 r).2.fds = (r.2.fds.close stdin1).close stdout0 := rfl

theorem runTest_calls {r : Verdict × Globals} (h : runTest lc os o t w l g = .ok r) :
    r.2.fds = descriptorCalls l g.fds (path o t w) := by
  rw [runTest_eq] at h
  cases hp : path o t w with
  | left => rw [hp] at h; cases h
  | disallowed p =>
    rw [hp] at h
    cases h
    rw [doReturn_fds,(failTail_effects _ _ _).fds]
    rfl
  | filtered =>
    rw [hp] at h
    cases h
    rfl
  | skipped reason =>
    rw [hp] at h
    cases h
    rfl
  | noInput i j f =>
    rw [hp] at h
    cases h
    rw [doReturn_fds,(failTail_effects _ _ _).fds]
    simp only [descriptorCalls,Globals.opened,(expect_effects _).fds,Globals.xoOpenInstance]
  | child i j =>
    rw [hp] at h
    cases h
    rw [doReturn_fds,(afterChild_effects _).fds]
    simp only [descriptorCalls,atChild,Globals.close,Globals.opened,(expect_effects _).fds,
      Globals.xoOpenInstance]

/-- The table of the harness goes on with the account of the call. -/
theorem runTest_fds {r : Verdict × Globals} (h : runTest lc os o t w l g = .ok r) :
    r.2.fds = g.fds.append (account o t w l g.fds.live) := by
  have happend : ∀ p, descriptorCalls l (g.fds.append (.look g.fds.live)) p =
      g.fds.append (descriptorCalls l (.look g.fds.live) p) := by
    intro p
    cases p <;> simp only [descriptorCalls,Table.append_pipe,Table.append_close]
  rw [runTest_calls h,account,← happend,Table.append_look]

/-- `pipe` answers with two descriptors that were not open, each of the two times. -/
def PipesFresh (w : World) (fds : Finset Int) : Prop :=
  ∀ i j, w.pipeStdin = some i → w.pipeStdout = some j →
    [i.1,i.2,j.1,j.2].Nodup ∧ ∀ fd ∈ [i.1,i.2,j.1,j.2], fd ∉ fds

variable {fds : Finset Int}

theorem opened_accounted {i j : Int × Int} (hfresh : [i.1,i.2,j.1,j.2].Nodup)
    (hnew : ∀ fd ∈ [i.1,i.2,j.1,j.2], fd ∉ fds) :
    Table.Accounted fds (((Table.look fds).pipe i).pipe j) := by
  simp only [List.nodup_cons,List.mem_cons,List.not_mem_nil,or_false,not_or] at hfresh hnew
  obtain ⟨⟨h₁₂,h₁₃,h₁₄⟩,⟨h₂₃,h₂₄⟩,h₃₄,-⟩ := hfresh
  refine (Table.Accounted.look.pipe ?_ ?_ h₁₂).pipe ?_ ?_ h₃₄
  · exact hnew i.1 (.inl rfl)
  · exact hnew i.2 (.inr (.inl rfl))
  · simp [Ne.symm h₁₃,Ne.symm h₂₃,hnew j.1]
  · simp [Ne.symm h₁₄,Ne.symm h₂₄,hnew j.2]

theorem account_accounted (hpipes : PipesFresh w fds) :
    Table.Accounted fds (account o t w l fds) := by
  have hinv := path_inv o t w
  rw [account]
  cases hpath : path o t w with
  | disallowed p => exact (Table.Accounted.look.close _).close _
  | filtered => exact .look
  | skipped reason => exact .look
  | left => exact .look
  | noInput i j f =>
    rw [hpath] at hinv
    obtain ⟨hfresh,hnew⟩ := hpipes i j hinv.1.pipeStdin hinv.1.pipeStdout
    exact ((opened_accounted hfresh hnew).close _).close _
  | child i j =>
    rw [hpath] at hinv
    obtain ⟨hfresh,hnew⟩ := hpipes i j hinv.1.pipeStdin hinv.1.pipeStdout
    exact ((((opened_accounted hfresh hnew).close _).close _).close _).close _

/-- What a call needs to give its descriptors back: no garbage of a disallowed test names
an open one, and the input of a test that is run is written whole. -/
structure GivesBack (o : Options) (t : CheriTest) (w : World) (l : Locals) (fds : Finset Int) :
    Prop where
  garbage : disallowedPrefix t.ctName ≠ none →
    l.pipefdStdin.2 ∉ fds ∧ l.pipefdStdout.1 ∉ fds
  stdin : disallowedPrefix t.ctName = none → ¬ (o.fastTestsOnly ∧ t.has CT_FLAG_SLOW) →
    skipReason t w = none → StdinWritten t w

theorem account_live_iff (hpipes : PipesFresh w fds) (hpath : path o t w ≠ .left) :
    (account o t w l fds).live = fds ↔ GivesBack o t w l fds := by
  have hinv := path_inv o t w
  rw [account]
  cases hcase : path o t w with
  | left => exact absurd hcase hpath
  | disallowed p =>
    rw [hcase] at hinv
    have hname : disallowedPrefix t.ctName ≠ none := by rw [hinv]; exact Option.some_ne_none p
    have hlive : (descriptorCalls l (.look fds) (.disallowed p)).live =
        (fds.erase l.pipefdStdin.2).erase l.pipefdStdout.1 := by simp [descriptorCalls]
    rw [hlive]
    constructor
    · intro he
      refine ⟨fun _ => ⟨fun hmem => ?_,fun hmem => ?_⟩,fun hn => absurd hn hname⟩
      · rw [← he] at hmem
        simp at hmem
      · rw [← he] at hmem
        simp at hmem
    · intro h
      obtain ⟨h₁,h₂⟩ := h.garbage hname
      rw [Finset.erase_eq_of_notMem h₁,Finset.erase_eq_of_notMem h₂]
  | filtered =>
    rw [hcase] at hinv
    exact ⟨fun _ => ⟨fun hn => absurd hinv.1 hn,fun _ hf => absurd hinv.2 hf⟩,fun _ => rfl⟩
  | skipped reason =>
    rw [hcase] at hinv
    refine ⟨fun _ => ⟨fun hn => absurd hinv.1 hn,fun _ _ hs => ?_⟩,fun _ => rfl⟩
    rw [hinv.2.2] at hs
    cases hs
  | noInput i j f =>
    rw [hcase] at hinv
    obtain ⟨hfresh,hnew⟩ := hpipes i j hinv.1.pipeStdin hinv.1.pipeStdout
    simp only [List.nodup_cons,List.mem_cons,List.not_mem_nil,or_false,not_or] at hfresh hnew
    constructor
    · intro he
      -- the end that the test would have read is still open
      have hopen : i.1 ∈ (descriptorCalls l (.look fds) (.noInput i j f)).live := by
        simp [descriptorCalls,hfresh.1]
      rw [he] at hopen
      exact absurd hopen (hnew i.1 (.inl rfl))
    · intro h
      have hok := writeStdin_eq_ok.mpr (h.stdin hinv.1.name hinv.1.fast hinv.1.skip)
      rw [hinv.2] at hok
      cases hok
  | child i j =>
    rw [hcase] at hinv
    obtain ⟨hfresh,hnew⟩ := hpipes i j hinv.1.pipeStdin hinv.1.pipeStdout
    simp only [List.nodup_cons,List.mem_cons,List.not_mem_nil,or_false,not_or] at hfresh hnew
    refine ⟨fun _ => ⟨fun hn => absurd hinv.1.name hn,fun _ _ _ => writeStdin_eq_ok.mp hinv.2.1⟩,
      fun _ => ?_⟩
    ext fd
    have hno : fd ∈ fds → fd ≠ i.1 ∧ fd ≠ i.2 ∧ fd ≠ j.1 ∧ fd ≠ j.2 := by
      intro hmem
      exact ⟨fun h => hnew i.1 (.inl rfl) (h ▸ hmem),fun h => hnew i.2 (.inr (.inl rfl)) (h ▸ hmem),
        fun h => hnew j.1 (.inr (.inr (.inl rfl))) (h ▸ hmem),
        fun h => hnew j.2 (.inr (.inr (.inr rfl))) (h ▸ hmem)⟩
    simp only [descriptorCalls,Table.live_close,Table.live_pipe,Table.live_look,Finset.mem_erase,
      Finset.mem_insert]
    tauto

end Paths

/-- A call that returns leaves the descriptors as they were, what it has made closed once and
nothing else closed, exactly when `GivesBack` holds. -/
theorem descriptors_kept_iff (lc : Libc) (os : OS) (o : Options) (t : CheriTest) (w : World)
    (l : Locals) (g g' : Globals) (v : Verdict) (h : runTest lc os o t w l g = .ok (v,g'))
    (hpipes : PipesFresh w g.fds.live) :
    g'.fds.live = g.fds.live ∧ (∃ made closed, g'.fds.made = g.fds.made ++ made ∧
        g'.fds.closed = g.fds.closed ++ closed ∧ closed.Perm made) ↔
      GivesBack o t w l g.fds.live := by
  have hfds : g'.fds = g.fds.append (account o t w l g.fds.live) := runTest_fds h
  have hpath : path o t w ≠ .left := by
    intro hc
    rw [runTest_eq,hc] at h
    cases h
  have hlive := (account_accounted (o := o) (t := t) (l := l) hpipes).closed_perm_iff
  rw [← account_live_iff hpipes hpath,hfds]
  constructor
  · exact fun h => h.1
  · exact fun h => ⟨h,_,_,rfl,rfl,hlive.mpr h⟩

theorem plainWorld_pipesFresh : PipesFresh plainWorld Globals.initial.fds.live := by
  intro i j hi hj
  cases hi
  cases hj
  exact ⟨by decide,by decide⟩

theorem descriptors_kept_plain : ∃ v g',
    runTest plainLibc .freeBSD ⟨false,0⟩ plainTest plainWorld plainLocals .initial = .ok (v,g') ∧
      (g'.fds.live = {0,1,2} ∧ (∃ made closed, g'.fds.made = [] ++ made ∧
          g'.fds.closed = [] ++ closed ∧ closed.Perm made) ↔
        GivesBack ⟨false,0⟩ plainTest plainWorld plainLocals {0,1,2}) :=
  ⟨_,_,rfl,descriptors_kept_iff plainLibc .freeBSD ⟨false,0⟩ plainTest plainWorld plainLocals
    .initial _ _ rfl plainWorld_pipesFresh⟩

/-- A test whose input is written short leaves one end of each pipe open, and one with a
disallowed name can take the harness's own stdin from it. -/
theorem descriptors_lost :
    (∃ v g', runTest plainLibc .freeBSD ⟨false,0⟩
      { plainTest with ctFlags := CT_FLAG_STDIN_STRING, ctStdinString := [97] }
      { plainWorld with write := .ok 0 } plainLocals .initial = .ok (v,g') ∧
        Globals.initial.fds.live = {0,1,2} ∧ g'.fds.live = {0,1,2,3,6}) ∧
    ∃ v g', runTest plainLibc .freeBSD ⟨false,0⟩ { plainTest with ctName := cstr "test_fault" }
      plainWorld plainLocals .initial = .ok (v,g') ∧ g'.fds.live = {1,2} :=
  ⟨⟨_,_,rfl,rfl,by decide⟩,_,_,rfl,by decide⟩

end CheriOsTest.Harness
