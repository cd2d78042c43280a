import CheriOsTest.CowRevoke
set_option autoImplicit false

/-! The verdict of the copy-on-write test. It is the same in every schedule, and it is
success exactly when neither pass reaches the pages of the other process. A parent that
gives up before it writes to the pipe leaves its second child behind. -/

namespace CheriOsTest.CowRevoke
open CheriOsTest.Capabilities CheriOsTest.CStrings CheriOsTest.Harness CheriOsTest.Programs
open CheriOsTest.Revoke (checkRevoked)

namespace Kernel

variable (k : Kernel)

def filled : Who → Space :=
  Function.update (fun _ => k.blank) .parent ⟨fun _ => k.cap,k.blank.quarantined⟩

def forked1 : Who → Space := Function.update k.filled .child1 (k.filled .parent)

def before1 : Who → Space :=
  Function.update k.forked1 .child1 { k.forked1 .child1 with quarantined := true }

def after1 : Who → Space := k.cheriRevoke .child1 k.before1

def forked2 : Who → Space := Function.update k.after1 .child2 (k.after1 .parent)

def before2 : Who → Space :=
  Function.update k.forked2 .parent { k.forked2 .parent with quarantined := true }

def after2 : Who → Space := k.cheriRevoke .parent k.before2

/-- Both pages of a process are revoked, or neither is. -/
def Has (sp : Who → Space) (w : Who) (revoked : Bool) : Prop :=
  ∀ pg, checkRevoked ((sp w).cap pg) = revoked

/-- A pass revokes both pages of the process that asks for it, and none of the other's. -/
structure Isolates : Prop where
  own1 : Has k.after1 .child1 true
  kept1 : Has k.after1 .parent false
  own2 : Has k.after2 .parent true
  kept2 : Has k.after2 .child2 false

end Kernel

/-- The call succeeds, with the answer that the test hopes for. -/
def CowEvent.Calm (e : CowEvent) : Prop :=
  match e.outcome with
  | .goes => True
  | .incore st => st .first &&& MINCORE_INCORE = 0 ∧
      (e.who = .parent → st .second &&& MINCORE_INCORE ≠ 0)
  | _ => False

/-- The event is no failing `waitpid` of the parent. -/
def CowState.Waits (s : CowState) (e : CowEvent) : Prop :=
  s.parent = .wait1 ∨ s.parent = .wait2 → e.who = .parent → ∀ errno, e.outcome ≠ .fails errno

section Invariant

variable (k : Kernel) (calm : Prop)

/-- The first child while the parent waits for it. -/
def Child1At (sp : Who → Space) : Child → Prop
  | .getShadow => sp = k.forked1
  | .msync | .mincore | .revoke => sp = k.before1
  | .check true .first => sp = k.after1
  | .check true .second => sp = k.after1 ∧ checkRevoked ((k.after1 .child1).cap .first) = true
  | .ended st =>
    (st = .exited 0 → sp = k.after1 ∧ Kernel.Has k.after1 .child1 true) ∧
      (calm → st ≠ .exited 0 → ¬ k.Isolates)
  | _ => False

/-- The second child before the parent has written. -/
def Untold : Child → Prop
  | .read => True
  | .ended st => st ≠ .exited 0 ∧ ¬ calm
  | _ => False

/-- The second child while the parent waits for it. -/
def Told (bytes : Nat) : Child → Prop
  | .read => bytes = 1
  | .check false .first => bytes = 0
  | .check false .second => bytes = 0 ∧ checkRevoked ((k.after2 .child2).cap .first) = false
  | .ended st =>
    (st = .exited 0 → Kernel.Has k.after2 .child2 false) ∧ (calm → st ≠ .exited 0 → ¬ k.Isolates)
  | _ => False

/-- The first child has been waited for and has seen its pages revoked. -/
structure First (s : CowState) : Prop where
  child1 : s.child1 = .ended (.exited 0)
  own1 : Kernel.Has k.after1 .child1 true
  res : s.res = .exited 0

structure Second (s : CowState) (sp : Who → Space) : Prop extends First k s where
  kept1 : Kernel.Has k.after1 .parent false
  bytes : s.bytes = 0
  space : s.space = sp
  child2 : Untold calm s.child2

structure Ended (s : CowState) (r : Report) : Prop where
  success : r = .success → k.Isolates ∧ s.child1 = .ended (.exited 0) ∧ s.child2 = .ended (.exited 0)
  failure : calm → r ≠ .success → ¬ k.Isolates

def ParentAt (s : CowState) : Parent → Prop
  | .mmap => s.child1 = .unborn ∧ s.child2 = .unborn ∧ s.bytes = 0 ∧ s.space = fun _ => k.blank
  | .fork1 => s.child1 = .unborn ∧ s.child2 = .unborn ∧ s.bytes = 0 ∧ s.space = k.filled
  | .wait1 => s.child2 = .unborn ∧ s.bytes = 0 ∧ Child1At k calm s.space s.child1
  | .unrevoked pg =>
    First k s ∧ s.child2 = .unborn ∧ s.bytes = 0 ∧ s.space = k.after1 ∧
      (pg = .second → checkRevoked ((k.after1 .parent).cap .first) = false)
  | .pipe | .fork2 =>
    First k s ∧ s.child2 = .unborn ∧ s.bytes = 0 ∧ s.space = k.after1 ∧
      Kernel.Has k.after1 .parent false
  | .getShadow => Second k calm s k.forked2
  | .msync | .mincore | .revoke => Second k calm s k.before2
  | .revoked pg => Second k calm s k.after2 ∧
      (pg = .second → checkRevoked ((k.after2 .parent).cap .first) = true)
  | .write => Second k calm s k.after2 ∧ Kernel.Has k.after2 .parent true
  | .wait2 => First k s ∧ Kernel.Has k.after1 .parent false ∧ Kernel.Has k.after2 .parent true ∧
      s.space = k.after2 ∧ Told k calm s.bytes s.child2
  | .munmap | .close _ => k.Isolates ∧ s.child1 = .ended (.exited 0) ∧ s.child2 = .ended (.exited 0)
  | .ended r => Ended k calm s r

end Invariant

variable {k : Kernel} {calm : Prop} {s s' : CowState}

theorem Kernel.Has.of_pages {sp : Who → Space} {w : Who} {b : Bool}
    (hfirst : checkRevoked ((sp w).cap .first) = b)
    (hsecond : checkRevoked ((sp w).cap .second) = b) : Kernel.Has sp w b := by
  intro pg
  cases pg with
  | first => exact hfirst
  | second => exact hsecond

theorem status_zero {st : WaitStatus} :
    (st.WIFEXITED = false ∨ st.WEXITSTATUS ≠ 0) ↔ st ≠ .exited 0 := by
  cases st with
  | exited n =>
    have hn : n.toNat = 0 ↔ n = 0 := by rw [← UInt8.toNat_inj]; rfl
    simp [WaitStatus.WIFEXITED,WaitStatus.WEXITSTATUS,hn]
  | _ => simp [WaitStatus.WIFEXITED]

theorem judge_eq (s : CowState) (which : CString) (next : Parent) : s.judge which next =
    if s.res ≠ .exited 0 then s.leave (badExit which s.res) else s.goto next := by
  simp only [CowState.judge,status_zero]

/-- A report of the parent other than success, which a calm run needs a reason for. -/
theorem Ended.of_failure {r : Report} (hr : r ≠ .success) (h : calm → ¬ k.Isolates) :
    Ended k calm s r := ⟨fun hs => absurd hs hr,fun hc _ => h hc⟩

/-- What the first half has shown stays where the parent goes on. -/
theorem First.goto (h : First k s) (pc : Parent) : First k (s.goto pc) :=
  ⟨h.child1,h.own1,h.res⟩

theorem Second.goto {sp : Who → Space} (h : Second k calm s sp) (pc : Parent) :
    Second k calm (s.goto pc) sp :=
  ⟨h.toFirst.goto pc,h.kept1,h.bytes,h.space,h.child2⟩

theorem Second.withSpace {sp sp' sp'' : Who → Space} (h : Second k calm s sp) (hsp : sp' = sp'') :
    Second k calm { s with space := sp' } sp'' :=
  ⟨⟨h.child1,h.own1,h.res⟩,h.kept1,h.bytes,hsp,h.child2⟩

theorem parentGoes_at (h : ParentAt k calm s s.parent) (hs : s.parentGoes k = some s') :
    ParentAt k calm s' s'.parent := by
  unfold CowState.parentGoes at hs
  cases hpc : s.parent with
  | mmap =>
    simp only [hpc] at h hs
    cases hs
    obtain ⟨h1,h2,hb,hsp⟩ := h
    exact ⟨h1,h2,hb,by simp [CowState.setSpace,CowState.goto,hsp,Kernel.filled]⟩
  | fork1 =>
    simp only [hpc] at h hs
    cases hs
    obtain ⟨h1,h2,hb,hsp⟩ := h
    exact ⟨h2,hb,by simp [CowState.setSpace,CowState.goto,hsp,Child1At,Kernel.forked1]⟩
  | wait1 =>
    simp only [hpc] at h hs
    obtain ⟨h2,hb,h1⟩ := h
    cases hc : s.child1 with
    | ended st =>
      rw [hc] at h1
      simp only [hc,judge_eq,Option.some.injEq] at hs
      subst hs
      by_cases hst : st = .exited 0
      · obtain ⟨hsp,hown⟩ := h1.1 hst
        simp only [hst,ne_eq,not_true_eq_false,if_false]
        exact ⟨⟨rfl,hown,rfl⟩,h2,hb,hsp,by simp⟩
      · simp only [hst,ne_eq,not_false_eq_true,if_true]
        exact .of_failure (by simp [badExit]) fun hcalm => h1.2 hcalm hst
    | _ => simp [hc] at hs
  | unrevoked pg =>
    simp only [hpc] at h hs
    obtain ⟨hfirst,h2,hb,hsp,hpg⟩ := h
    simp only [CowState.isRevoked,hsp,Option.some.injEq] at hs
    subst hs
    cases hrev : checkRevoked ((k.after1 .parent).cap pg) with
    | true =>
      simp only [if_true]
      refine .of_failure (by simp [verifyFailure]) fun _ hiso => ?_
      have hkept := hiso.kept1 pg
      rw [hrev] at hkept
      cases hkept
    | false =>
      cases pg with
      | first => exact ⟨hfirst.goto _,h2,hb,hsp,fun _ => hrev⟩
      | second => exact ⟨hfirst.goto _,h2,hb,hsp,.of_pages (hpg rfl) hrev⟩
  | pipe =>
    simp only [hpc] at h hs
    cases hs
    obtain ⟨hfirst,h⟩ := h
    exact ⟨hfirst.goto _,h⟩
  | fork2 =>
    simp only [hpc] at h hs
    cases hs
    obtain ⟨hfirst,h2,hb,hsp,hkept⟩ := h
    have hforked : Function.update s.space .child2 (s.space .parent) = k.forked2 := by
      rw [hsp,Kernel.forked2]
    exact ⟨⟨hfirst.child1,hfirst.own1,hfirst.res⟩,hkept,hb,hforked,trivial⟩
  | getShadow =>
    simp only [hpc] at h hs
    cases hs
    have hspace : (s.quarantine .parent).space = k.before2 := by
      simp [CowState.quarantine,CowState.setSpace,h.space,Kernel.before2]
    exact (h.withSpace hspace).goto .msync
  | msync =>
    simp only [hpc] at h hs
    cases hs
    exact h.goto .mincore
  | mincore => simp [hpc] at hs
  | revoke =>
    simp only [hpc] at h hs
    cases hs
    have hspace : k.cheriRevoke .parent s.space = k.after2 := by rw [h.space,Kernel.after2]
    exact ⟨(h.withSpace hspace).goto _,by simp⟩
  | revoked pg =>
    simp only [hpc] at h hs
    obtain ⟨h,hpg⟩ := h
    simp only [CowState.isRevoked,h.space,Option.some.injEq] at hs
    subst hs
    cases hrev : checkRevoked ((k.after2 .parent).cap pg) with
    | false =>
      simp only [Bool.false_eq_true,if_false]
      refine .of_failure (by simp [verifyFailure]) fun _ hiso => ?_
      have hown := hiso.own2 pg
      rw [hrev] at hown
      cases hown
    | true =>
      cases pg with
      | first => exact ⟨h.goto _,fun _ => hrev⟩
      | second => exact ⟨h.goto _,.of_pages (hpg rfl) hrev⟩
  | write =>
    simp only [hpc] at h hs
    cases hs
    obtain ⟨h,hown⟩ := h
    refine ⟨⟨h.child1,h.own1,h.res⟩,h.kept1,hown,h.space,?_⟩
    have hchild := h.child2
    cases hc : s.child2 <;> rw [hc] at hchild <;>
      simp_all [CowState.goto,Untold,Told,h.bytes]
  | wait2 =>
    simp only [hpc] at h hs
    obtain ⟨hfirst,hkept,hown,hsp,h2⟩ := h
    cases hc : s.child2 with
    | ended st =>
      rw [hc] at h2
      simp only [hc,judge_eq,Option.some.injEq] at hs
      subst hs
      by_cases hst : st = .exited 0
      · simp only [hst,ne_eq,not_true_eq_false,if_false]
        exact ⟨⟨hfirst.own1,hkept,hown,h2.1 hst⟩,hfirst.child1,rfl⟩
      · simp only [hst,ne_eq,not_false_eq_true,if_true]
        exact .of_failure (by simp [badExit]) fun hcalm => h2.2 hcalm hst
    | _ => simp [hc] at hs
  | munmap =>
    simp only [hpc] at h hs
    cases hs
    exact h
  | close fd =>
    simp only [hpc,Option.some.injEq] at h hs
    subst hs
    split_ifs
    · exact h
    · exact ⟨fun _ => h,fun _ hne => absurd rfl hne⟩
  | ended r => simp [hpc] at hs

theorem leave_at {r : Report} (hr : r ≠ .success) (hcalm : ¬ calm) :
    ParentAt k calm (s.leave r) (s.leave r).parent :=
  Ended.of_failure hr fun hc => absurd hc hcalm

theorem parentFails_at {errno : Int} (hcalm : ¬ calm) (hwaits : s.Waits ⟨.parent,.fails errno⟩)
    (hs : s.parentFails k errno = some s') : ParentAt k calm s' s'.parent := by
  have hno : s.parent ≠ .wait1 ∧ s.parent ≠ .wait2 :=
    ⟨fun hpc => hwaits (.inl hpc) rfl errno rfl,fun hpc => hwaits (.inr hpc) rfl errno rfl⟩
  unfold CowState.parentFails at hs
  split at hs
  case h_4 hpc => exact absurd hpc hno.1
  case h_5 hpc => exact absurd hpc hno.2
  all_goals
    cases hs
    try exact leave_at (by simp [verifyFailure,forkFailure,Kernel.syscallFailure]) hcalm

theorem parentKilled_at {signo : Int} (hcalm : ¬ calm) (hs : s.parentKilled signo = some s') :
    ParentAt k calm s' s'.parent := by
  unfold CowState.parentKilled at hs
  split at hs <;> cases hs
  exact leave_at (by simp) hcalm

theorem parentIncore_at {st : Page → UInt8} (h : ParentAt k calm s s.parent)
    (hcalm : calm → CowEvent.Calm ⟨.parent,.incore st⟩) (hs : s.parentIncore st = some s') :
    ParentAt k calm s' s'.parent := by
  unfold CowState.parentIncore at hs
  split at hs
  case h_1 hpc =>
    rw [hpc] at h
    simp only [Option.some.injEq] at hs
    subst hs
    split_ifs with hfirst hsecond
    · exact leave_at (by simp [verifyFailure]) fun hc => hfirst (hcalm hc).1
    · exact leave_at (by simp [verifyFailure]) fun hc => (hcalm hc).2 rfl hsecond
    · exact h.goto .revoke
  case h_2 => cases hs

/-- The first child is only at work while the parent waits for it, or has left. -/
theorem child1_step {o : Outcome} {sp : Who → Space} {bytes : Nat} {c : Child}
    (h : Child1At k calm s.space s.child1) (hcalm : calm → CowEvent.Calm ⟨.child1,o⟩)
    (hs : childStep k s.space s.bytes .child1 s.child1 o = some (sp,bytes,c)) :
    bytes = s.bytes ∧ Child1At k calm sp c := by
  have hfail : ¬ calm → ∀ st : WaitStatus, st ≠ .exited 0 → Child1At k calm s.space (.ended st) :=
    fun hc st hst => ⟨fun h0 => absurd h0 hst,fun hcalm => absurd hcalm hc⟩
  cases o with
  | goes =>
    cases hc : s.child1 with
    | getShadow =>
      rw [hc] at h hs
      cases hs
      refine ⟨rfl,?_⟩
      change _ = k.before1
      rw [show s.space = k.forked1 from h,Kernel.before1]
    | msync =>
      rw [hc] at h hs
      cases hs
      exact ⟨rfl,h⟩
    | revoke =>
      rw [hc] at h hs
      cases hs
      refine ⟨rfl,?_⟩
      change _ = k.after1
      rw [show s.space = k.before1 from h,Kernel.after1]
    | check b pg =>
      rw [hc] at h hs
      cases b with
      | false => cases pg <;> exact h.elim
      | true =>
        have hsp : s.space = k.after1 := by
          cases pg with
          | first => exact h
          | second => exact h.1
        simp only [childStep,hsp,Option.some.injEq,Prod.mk.injEq] at hs
        obtain ⟨rfl,rfl,rfl⟩ := hs
        refine ⟨rfl,?_⟩
        cases hrev : checkRevoked ((k.after1 .child1).cap pg) with
        | false =>
          have hiso : ¬ k.Isolates := fun hiso => by
            have hown := hiso.own1 pg
            rw [hrev] at hown
            cases hown
          cases pg <;> exact ⟨fun h0 => (by cases h0),fun _ _ => hiso⟩
        | true =>
          cases pg with
          | first => exact ⟨rfl,hrev⟩
          | second => exact ⟨fun _ => ⟨rfl,.of_pages h.2 hrev⟩,fun _ hne => absurd rfl hne⟩
    | _ => rw [hc] at h hs; first | exact h.elim | cases hs
  | fails errno =>
    have hc : ¬ calm := hcalm
    simp only [childStep] at hs
    split at hs <;> cases hs <;> exact ⟨rfl,hfail hc _ (by decide)⟩
  | killed signo =>
    have hc : ¬ calm := hcalm
    simp only [childStep] at hs
    split at hs <;> cases hs
    exact ⟨rfl,hfail hc _ (by simp)⟩
  | incore st =>
    cases hc : s.child1 with
    | mincore =>
      rw [hc] at h hs
      cases hs
      refine ⟨rfl,?_⟩
      split_ifs with hin
      · exact hfail (fun hc => hin (hcalm hc).1) _ (by decide)
      · exact h
    | _ => rw [hc] at hs; cases hs

theorem untold_step {o : Outcome} {sp : Who → Space} {bytes : Nat} {c : Child}
    (h : Untold calm s.child2) (hbytes : s.bytes = 0) (hcalm : calm → CowEvent.Calm ⟨.child2,o⟩)
    (hs : childStep k s.space s.bytes .child2 s.child2 o = some (sp,bytes,c)) :
    sp = s.space ∧ bytes = 0 ∧ Untold calm c := by
  cases hc : s.child2 with
  | read =>
    rw [hc] at hs
    cases o with
    | goes =>
      simp only [childStep,hbytes,if_true] at hs
      cases hs
    | fails errno =>
      cases hs
      exact ⟨rfl,hbytes,by decide,hcalm⟩
    | incore st => cases hs
    | killed signo =>
      cases hs
      exact ⟨rfl,hbytes,by simp,hcalm⟩
  | ended st =>
    rw [hc] at hs
    cases o <;> cases hs
  | _ =>
    rw [hc] at h
    exact h.elim

theorem told_step {o : Outcome} {sp : Who → Space} {bytes : Nat} {c : Child}
    (h : Told k calm s.bytes s.child2) (hsp : s.space = k.after2)
    (hcalm : calm → CowEvent.Calm ⟨.child2,o⟩)
    (hs : childStep k s.space s.bytes .child2 s.child2 o = some (sp,bytes,c)) :
    sp = k.after2 ∧ Told k calm bytes c := by
  have hfail : ¬ calm → ∀ st : WaitStatus, st ≠ .exited 0 → Told k calm s.bytes (.ended st) :=
    fun hc st hst => ⟨fun h0 => absurd h0 hst,fun hcalm => absurd hcalm hc⟩
  cases o with
  | goes =>
    cases hc : s.child2 with
    | read =>
      rw [hc] at h hs
      have hone : s.bytes = 1 := h
      simp only [childStep,hone] at hs
      cases hs
      exact ⟨hsp,rfl⟩
    | check b pg =>
      rw [hc] at h hs
      cases b with
      | true => cases pg <;> exact h.elim
      | false =>
        have hzero : s.bytes = 0 := by
          cases pg with
          | first => exact h
          | second => exact h.1
        simp only [childStep,hsp,Option.some.injEq,Prod.mk.injEq] at hs
        obtain ⟨rfl,rfl,rfl⟩ := hs
        refine ⟨rfl,?_⟩
        cases hrev : checkRevoked ((k.after2 .child2).cap pg) with
        | true =>
          have hiso : ¬ k.Isolates := fun hiso => by
            have hkept := hiso.kept2 pg
            rw [hrev] at hkept
            cases hkept
          cases pg <;> exact ⟨fun h0 => (by cases h0),fun _ _ => hiso⟩
        | false =>
          cases pg with
          | first => exact ⟨hzero,hrev⟩
          | second => exact ⟨fun _ => .of_pages h.2 hrev,fun _ hne => absurd rfl hne⟩
    | _ => rw [hc] at h hs; first | exact h.elim | cases hs
  | fails errno =>
    have hc : ¬ calm := hcalm
    simp only [childStep] at hs
    split at hs <;> cases hs <;> exact ⟨hsp,hfail hc _ (by decide)⟩
  | killed signo =>
    have hc : ¬ calm := hcalm
    simp only [childStep] at hs
    split at hs <;> cases hs
    exact ⟨hsp,hfail hc _ (by simp)⟩
  | incore st =>
    cases hc : s.child2 with
    | mincore =>
      rw [hc] at h
      exact h.elim
    | _ => rw [hc] at hs; cases hs

theorem ended_step {o : Outcome} {w : Who} {st : WaitStatus} {sp : Who → Space} {bytes : Nat} :
    childStep k sp bytes w (.ended st) o = none := by cases o <;> rfl

theorem unborn_step {o : Outcome} {w : Who} {sp : Who → Space} {bytes : Nat} :
    childStep k sp bytes w .unborn o = none := by cases o <;> rfl

theorem child1Step_at {o : Outcome} {sp : Who → Space} {bytes : Nat} {c : Child}
    (h : ParentAt k calm s s.parent) (hcalm : calm → CowEvent.Calm ⟨.child1,o⟩)
    (hs : childStep k s.space s.bytes .child1 s.child1 o = some (sp,bytes,c)) :
    ParentAt k calm { s with space := sp, bytes := bytes, child1 := c } s.parent := by
  have hunborn : s.child1 ≠ .unborn := by
    intro hc
    rw [hc,unborn_step] at hs
    cases hs
  have hended : ∀ st, s.child1 ≠ .ended st := by
    intro st hc
    rw [hc,ended_step] at hs
    cases hs
  cases hpc : s.parent with
  | wait1 =>
    rw [hpc] at h
    obtain ⟨rfl,hchild⟩ := child1_step h.2.2 hcalm hs
    exact ⟨h.1,h.2.1,hchild⟩
  | mmap | fork1 =>
    rw [hpc] at h
    exact absurd h.1 hunborn
  | unrevoked | pipe | fork2 | wait2 =>
    rw [hpc] at h
    exact absurd h.1.child1 (hended _)
  | getShadow | msync | mincore | revoke =>
    rw [hpc] at h
    exact absurd h.child1 (hended _)
  | revoked | write =>
    rw [hpc] at h
    exact absurd h.1.child1 (hended _)
  | munmap | close =>
    rw [hpc] at h
    exact absurd h.2.1 (hended _)
  | ended r =>
    rw [hpc] at h
    exact ⟨fun hr => absurd (h.success hr).2.1 (hended _),h.failure⟩

theorem child2Step_at {o : Outcome} {sp : Who → Space} {bytes : Nat} {c : Child}
    (h : ParentAt k calm s s.parent) (hcalm : calm → CowEvent.Calm ⟨.child2,o⟩)
    (hs : childStep k s.space s.bytes .child2 s.child2 o = some (sp,bytes,c)) :
    ParentAt k calm { s with space := sp, bytes := bytes, child2 := c } s.parent := by
  have hunborn : s.child2 ≠ .unborn := by
    intro hc
    rw [hc,unborn_step] at hs
    cases hs
  have hended : ∀ st, s.child2 ≠ .ended st := by
    intro st hc
    rw [hc,ended_step] at hs
    cases hs
  have hsecond : ∀ {mem pc}, Second k calm s mem →
      Second k calm { s with space := sp, bytes := bytes, parent := pc, child2 := c } mem := by
    intro mem pc hsec
    obtain ⟨hsp,hb,hchild⟩ := untold_step hsec.child2 hsec.bytes hcalm hs
    exact ⟨⟨hsec.child1,hsec.own1,hsec.res⟩,hsec.kept1,hb,hsp.trans hsec.space,hchild⟩
  cases hpc : s.parent with
  | mmap | fork1 | unrevoked | pipe | fork2 =>
    rw [hpc] at h
    exact absurd h.2.1 hunborn
  | wait1 =>
    rw [hpc] at h
    exact absurd h.1 hunborn
  | getShadow | msync | mincore | revoke =>
    rw [hpc] at h
    exact hsecond h
  | revoked | write =>
    rw [hpc] at h
    exact ⟨hsecond h.1,h.2⟩
  | wait2 =>
    rw [hpc] at h
    obtain ⟨hfirst,hkept,hown,hsp,h2⟩ := h
    obtain ⟨hsp',hchild⟩ := told_step h2 hsp hcalm hs
    exact ⟨⟨hfirst.child1,hfirst.own1,hfirst.res⟩,hkept,hown,hsp',hchild⟩
  | munmap | close =>
    rw [hpc] at h
    exact absurd h.2.2 (hended _)
  | ended r =>
    rw [hpc] at h
    exact ⟨fun hr => absurd (h.success hr).2.2 (hended _),h.failure⟩

/-- Where the parent is tells what everybody has seen so far. -/
theorem step_at {e : CowEvent} (h : ParentAt k calm s s.parent) (hcalm : calm → e.Calm)
    (hwaits : s.Waits e) (hs : s.step k e = some s') : ParentAt k calm s' s'.parent := by
  obtain ⟨w,o⟩ := e
  cases w with
  | parent =>
    cases o with
    | goes => exact parentGoes_at h hs
    | fails errno => exact parentFails_at hcalm hwaits hs
    | incore st => exact parentIncore_at h hcalm hs
    | killed signo => exact parentKilled_at hcalm hs
  | child1 =>
    obtain ⟨⟨sp,bytes,c⟩,hchild,rfl⟩ := Option.map_eq_some_iff.mp hs
    exact child1Step_at (s := s) h hcalm hchild
  | child2 =>
    obtain ⟨⟨sp,bytes,c⟩,hchild,rfl⟩ := Option.map_eq_some_iff.mp hs
    exact child2Step_at (s := s) h hcalm hchild

theorem start_at (k : Kernel) : ParentAt k calm (.start k) .mmap := ⟨rfl,rfl,rfl,rfl⟩

/-- A kernel that gives the caller pages of its own before the pass writes to them. -/
def copyingKernel : Kernel where
  torev := ⟨true,0x3000,0x1000,0x3000,-1,0xffff⟩
  swVmem := 0x2
  blank := ⟨fun _ => ⟨false,0,0,0,-1,0⟩,false⟩
  cheriRevoke w sp := Function.update sp w
    { sp w with cap := fun pg => ((sp w).cap pg).swept 0x2 fun _ => (sp w).quarantined }
  res := .stopped 0
  strerror _ := cstr "Unknown error"

def goes (w : Who) (n : Nat) : List CowEvent := List.replicate n ⟨w,.goes⟩

def secondIn : Page → UInt8
  | .first => 0
  | .second => MINCORE_INCORE

/-- Up to the second fork. -/
def firstHalf : List CowEvent :=
  goes .parent 2 ++ goes .child1 2 ++ [⟨.child1,.incore secondIn⟩] ++ goes .child1 3 ++ goes .parent 5

def secondHalf : List CowEvent :=
  goes .parent 2 ++ [⟨.parent,.incore secondIn⟩] ++ goes .parent 4 ++ goes .child2 3 ++ goes .parent 4

theorem reached_at (calm : Prop) {ok : CowState → CowEvent → Prop}
    (h : Reached (CowState.step k) ok (.start k) s) (hwaits : ∀ s e, ok s e → s.Waits e)
    (hcalm : calm → ∀ s e, ok s e → e.Calm) : ParentAt k calm s s.parent :=
  h.invariant (fun s => ParentAt k calm s s.parent) (start_at k)
    fun s e _ hs hok hstep => step_at hs (fun hc => hcalm hc s e hok) (hwaits s e hok) hstep

/-- While no `waitpid` fails, success means that the kernel keeps the processes apart; where
every call succeeds, it is what the test reports of such a kernel, whatever the schedule. A
second `waitpid` that fails leaves the status of the first child where it was, so that the
parent goes on as if its second child had seen its pages kept. -/
theorem cow_verdict {ok : CowState → CowEvent → Prop} (hwaits : ∀ s e, ok s e → s.Waits e)
    (h : Reached (CowState.step k) ok (.start k) s) :
    (∀ r, s.parent = .ended r →
      (r = .success →
        k.Isolates ∧ s.child1 = .ended (.exited 0) ∧ s.child2 = .ended (.exited 0)) ∧
      ((∀ s e, ok s e → e.Calm) → k.Isolates → r = .success)) ∧
    ∀ errno, s.parent = .wait2 → s.step k ⟨.parent,.fails errno⟩ = some (s.goto .munmap) := by
  have hat := reached_at (∀ s e, ok s e → CowEvent.Calm e) h hwaits fun hc => hc
  refine ⟨fun r hend => ?_,fun errno hpc => ?_⟩
  · rw [hend] at hat
    refine ⟨hat.success,fun hcalm hiso => ?_⟩
    by_contra hr
    exact hat.failure hcalm hr hiso
  · rw [hpc] at hat
    simp [CowState.step,CowState.parentStep,CowState.parentFails,hpc,judge_eq,hat.1.res]

theorem calm_firstHalf : ∀ e ∈ firstHalf, e.Calm := by
  simp [firstHalf,goes,CowEvent.Calm,secondIn]

theorem calm_secondHalf : ∀ e ∈ secondHalf, e.Calm := by
  simp [secondHalf,goes,CowEvent.Calm,secondIn]
  decide

theorem Calm.waits {e : CowEvent} (h : e.Calm) (s : CowState) : s.Waits e := by
  intro _ _ errno ho
  rw [CowEvent.Calm,ho] at h
  exact h

theorem cow_verdict_copyingKernel : ∃ s,
    Reached (CowState.step copyingKernel) (fun _ e => e.Calm) (.start copyingKernel) s ∧
      s.parent = .ended .success ∧ copyingKernel.Isolates := by
  obtain ⟨s,hs,hend⟩ : ∃ s, (firstHalf ++ secondHalf).foldlM (CowState.step copyingKernel)
      (.start copyingKernel) = some s ∧ s.parent = .ended .success := ⟨_,rfl,rfl⟩
  have hcalm : ∀ e ∈ firstHalf ++ secondHalf, e.Calm := by
    intro e he
    exact (List.mem_append.mp he).elim (calm_firstHalf e) (calm_secondHalf e)
  have h : Reached (CowState.step copyingKernel) (fun _ e => e.Calm) (.start copyingKernel) s :=
    .of_foldlM_ok _ (fun e he _ => hcalm e he) .start hs
  exact ⟨s,h,hend,(((cow_verdict (fun s _ he => Calm.waits he s) h).1 _ hend).1 rfl).1⟩

section Pipe

/-- The parent has a second child and has yet to write to the pipe. -/
def Parent.Withholds : Parent → Prop
  | .getShadow | .msync | .mincore | .revoke | .revoked _ | .write => True
  | _ => False

/-- Who is there and what is in the pipe, in every run, whatever fails. -/
def PipeAt (s : CowState) : Parent → Prop
  | .mmap | .fork1 | .unrevoked _ | .pipe | .fork2 => s.child2 = .unborn ∧ s.bytes = 0
  | .wait1 => s.child1 ≠ .unborn ∧ s.child2 = .unborn ∧ s.bytes = 0
  | .getShadow | .msync | .mincore | .revoke | .revoked _ | .write =>
    s.child2 ≠ .unborn ∧ s.bytes = 0
  | .wait2 | .munmap | .close _ => s.child2 ≠ .unborn ∧ (s.child2 = .read → s.bytes = 1)
  | .ended r => r = .success → s.child2 = .read → s.bytes = 1

theorem childStep_next {w : Who} {o : Outcome} {sp sp' : Who → Space} {bytes bytes' : Nat}
    {c c' : Child} (hs : childStep k sp bytes w c o = some (sp',bytes',c')) :
    c' ≠ .read ∧ c' ≠ .unborn ∧ (c ≠ .read → bytes' = bytes) ∧ (bytes = 0 → bytes' = 0) := by
  cases o with
  | goes =>
    cases c with
    | check b pg =>
      cases hs
      split_ifs
      · simp [exit]
      · cases pg <;> simp [exit]
    | read =>
      simp only [childStep] at hs
      split_ifs at hs with hb
      cases hs
      simp [hb]
    | _ =>
      cases hs
      try simp
  | fails errno => cases c <;> cases hs <;> simp [exit]
  | incore st =>
    cases c <;> cases hs
    split_ifs <;> simp [exit]
  | killed signo => cases c <;> cases hs <;> simp

/-- The second child is the only one that reads, and a parent that reports success has told it. -/
structure Piped (s : CowState) : Prop where
  child1 : s.child1 ≠ .read
  pipe : PipeAt s s.parent

theorem Piped.leave {r : Report} (h : Piped s) (hr : r ≠ .success) : Piped (s.leave r) :=
  ⟨h.child1,fun hs => absurd hs hr⟩

theorem Piped.judge {which : CString} (next : Parent) (hread : s.child1 ≠ .read)
    (hnext : PipeAt s next) : Piped (s.judge which next) := by
  rw [judge_eq]
  split_ifs
  · exact ⟨hread,fun hs => nomatch hs⟩
  · exact ⟨hread,by cases next <;> exact hnext⟩

theorem Piped.child1Step {o : Outcome} {sp : Who → Space} {bytes : Nat} {c : Child} (h : Piped s)
    (hs : childStep k s.space s.bytes .child1 s.child1 o = some (sp,bytes,c)) :
    Piped { s with space := sp, bytes := bytes, child1 := c } := by
  obtain ⟨hread,hunborn,hbytes,-⟩ := childStep_next hs
  have hsame : bytes = s.bytes := hbytes h.child1
  subst hsame
  have hpipe := h.pipe
  refine ⟨hread,?_⟩
  change PipeAt _ s.parent
  cases hpc : s.parent <;> rw [hpc] at hpipe
  case wait1 => exact ⟨hunborn,hpipe.2⟩
  all_goals exact hpipe

theorem Piped.child2Step {o : Outcome} {sp : Who → Space} {bytes : Nat} {c : Child} (h : Piped s)
    (hs : childStep k s.space s.bytes .child2 s.child2 o = some (sp,bytes,c)) :
    Piped { s with space := sp, bytes := bytes, child2 := c } := by
  obtain ⟨hread,hunborn,-,hbytes⟩ := childStep_next hs
  have hborn : s.child2 ≠ .unborn := by
    intro hc
    rw [hc,unborn_step] at hs
    cases hs
  have hpipe := h.pipe
  refine ⟨h.child1,?_⟩
  change PipeAt _ s.parent
  cases hpc : s.parent <;> rw [hpc] at hpipe
  case mmap | fork1 | unrevoked | pipe | fork2 => exact absurd hpipe.1 hborn
  case wait1 => exact absurd hpipe.2.1 hborn
  case getShadow | msync | mincore | revoke | revoked | write => exact ⟨hunborn,hbytes hpipe.2⟩
  case wait2 | munmap | close => exact ⟨hunborn,fun hc => absurd hc hread⟩
  case ended => exact fun _ hc => absurd hc hread

theorem Piped.parentGoes (h : Piped s) (hs : s.parentGoes k = some s') : Piped s' := by
  have hpipe := h.pipe
  unfold CowState.parentGoes at hs
  cases hpc : s.parent with
  | wait1 =>
    simp only [hpc] at hpipe hs
    cases hc : s.child1 with
    | ended st =>
      simp only [hc,Option.some.injEq] at hs
      subst hs
      exact .judge (.unrevoked .first) (by simp) hpipe.2
    | _ => simp [hc] at hs
  | wait2 =>
    simp only [hpc] at hpipe hs
    cases hc : s.child2 with
    | ended st =>
      simp only [hc,Option.some.injEq] at hs
      subst hs
      exact .judge .munmap h.child1 ⟨by simp,by simp⟩
    | _ => simp [hc] at hs
  | unrevoked pg | revoked pg =>
    simp only [hpc,Option.some.injEq] at hpipe hs
    subst hs
    split_ifs
    · first | exact h.leave (by simp [verifyFailure]) | (cases pg <;> exact ⟨h.child1,hpipe⟩)
    · first | exact h.leave (by simp [verifyFailure]) | (cases pg <;> exact ⟨h.child1,hpipe⟩)
  | close fd =>
    simp only [hpc,Option.some.injEq] at hpipe hs
    subst hs
    split_ifs
    · exact ⟨h.child1,hpipe⟩
    · exact ⟨h.child1,fun _ => hpipe.2⟩
  | fork1 | fork2 =>
    simp only [hpc] at hpipe hs
    cases hs
    first | exact ⟨by simp [CowState.goto],by simp [CowState.goto],hpipe⟩ |
      exact ⟨h.child1,by simp [CowState.goto],hpipe.2⟩
  | write =>
    simp only [hpc] at hpipe hs
    cases hs
    exact ⟨h.child1,hpipe.1,fun _ => by simp [CowState.goto,hpipe.2]⟩
  | mincore | ended => simp [hpc] at hs
  | _ =>
    simp only [hpc] at hpipe hs
    cases hs
    exact ⟨h.child1,hpipe⟩

theorem Piped.parentFails {errno : Int} (h : Piped s) (hs : s.parentFails k errno = some s') :
    Piped s' := by
  have hpipe := h.pipe
  unfold CowState.parentFails at hs
  split at hs
  case h_4 hpc =>
    rw [hpc] at hpipe
    cases hs
    exact .judge (.unrevoked .first) h.child1 hpipe.2
  case h_5 hpc =>
    rw [hpc] at hpipe
    cases hs
    exact .judge .munmap h.child1 hpipe
  all_goals
    cases hs
    try exact h.leave (by simp [verifyFailure,forkFailure,Kernel.syscallFailure])

theorem Piped.step {e : CowEvent} (h : Piped s) (hs : s.step k e = some s') : Piped s' := by
  obtain ⟨w,o⟩ := e
  cases w with
  | child1 =>
    obtain ⟨⟨sp,bytes,c⟩,hchild,rfl⟩ := Option.map_eq_some_iff.mp hs
    exact h.child1Step hchild
  | child2 =>
    obtain ⟨⟨sp,bytes,c⟩,hchild,rfl⟩ := Option.map_eq_some_iff.mp hs
    exact h.child2Step hchild
  | parent =>
    cases o with
    | goes => exact h.parentGoes hs
    | fails errno => exact h.parentFails hs
    | incore st =>
      have hs : s.parentIncore st = some s' := hs
      have hpipe := h.pipe
      unfold CowState.parentIncore at hs
      split at hs
      case h_1 hpc =>
        rw [hpc] at hpipe
        simp only [Option.some.injEq] at hs
        subst hs
        split_ifs
        · exact h.leave (by simp [verifyFailure])
        · exact h.leave (by simp [verifyFailure])
        · exact ⟨h.child1,hpipe⟩
      case h_2 => cases hs
    | killed signo =>
      have hs : s.parentKilled signo = some s' := hs
      unfold CowState.parentKilled at hs
      split at hs <;> cases hs
      exact h.leave (by simp)

theorem reached_piped {ok : CowState → CowEvent → Prop}
    (h : Reached (CowState.step k) ok (.start k) s) : Piped s :=
  have hstart : Piped (.start k) := ⟨by simp [CowState.start],rfl,rfl⟩
  h.invariant Piped hstart fun _ _ _ hs _ hstep => hs.step hstep

end Pipe

/-- A parent that leaves before it writes leaves everything else as it is. -/
theorem parent_leaves {o : Outcome} {r : Report} (hpc : s.parent.Withholds)
    (hs : s.parentStep k o = some s') (hend : s'.parent = .ended r) : s' = s.leave r := by
  have hleave : ∀ r', s' = s.leave r' → s' = s.leave r := by
    rintro r' rfl
    cases hend
    rfl
  cases o with
  | goes =>
    simp only [CowState.parentStep,CowState.parentGoes] at hs
    cases hp : s.parent <;> rw [hp] at hpc hs <;> try exact hpc.elim
    case revoked pg =>
      simp only at hs
      split_ifs at hs <;> cases pg <;> cases hs <;> first | exact hleave _ rfl | cases hend
    all_goals
      cases hs
      try cases hend
  | fails errno =>
    simp only [CowState.parentStep,CowState.parentFails] at hs
    cases hp : s.parent <;> rw [hp] at hpc hs <;> try exact hpc.elim
    all_goals
      cases hs
      try exact hleave _ rfl
  | incore st =>
    simp only [CowState.parentStep,CowState.parentIncore] at hs
    split at hs
    · split_ifs at hs <;> cases hs
      · exact hleave _ rfl
      · exact hleave _ rfl
      · cases hend
    · cases hs
  | killed signo =>
    simp only [CowState.parentStep,CowState.parentKilled] at hs
    split at hs <;> cases hs
    exact hleave _ rfl

/-- The second child has nobody left that could write to the pipe. -/
structure Orphan (s : CowState) : Prop where
  parent : ∃ r, s.parent = .ended r
  child2 : s.child2 = .read
  bytes : s.bytes = 0

theorem Orphan.step {e : CowEvent} (h : Orphan s) (he : e.who = .child2 → e.Calm)
    (hs : s.step k e = some s') : Orphan s' := by
  obtain ⟨⟨r,hr⟩,hchild,hbytes⟩ := h
  obtain ⟨w,o⟩ := e
  cases w with
  | parent => cases o <;> simp [CowState.step,CowState.parentStep,CowState.parentGoes,
      CowState.parentFails,CowState.parentIncore,CowState.parentKilled,hr] at hs
  | child1 =>
    obtain ⟨⟨sp,bytes,c⟩,hstep,rfl⟩ := Option.map_eq_some_iff.mp hs
    exact ⟨⟨r,hr⟩,hchild,(childStep_next hstep).2.2.2 hbytes⟩
  | child2 =>
    cases o with
    | goes => simp [CowState.step,CowState.child,hchild,childStep,hbytes] at hs
    | incore st => simp [CowState.step,CowState.child,hchild,childStep] at hs
    | fails errno => exact (he rfl).elim
    | killed signo => exact (he rfl).elim

/-- A parent that leaves between its second fork and its wait leaves the child blocked for
ever: the child holds an end of the pipe open that nobody writes to. -/
theorem cow_orphan {s'' : CowState} {o : Outcome} {r : Report}
    (h : Reached (CowState.step k) (fun _ _ => True) (.start k) s) (hchild : s.child2 = .read)
    (hpc : s.parent.Withholds) (hs : s.step k ⟨.parent,o⟩ = some s') (hend : s'.parent = .ended r)
    (es : List CowEvent) (hes : ∀ e ∈ es, e.who = .child2 → e.Calm)
    (hrun : es.foldlM (CowState.step k) s' = some s'') : s''.child2 = .read := by
  have hbytes : s.bytes = 0 := by
    have hpipe := (reached_piped h).pipe
    cases hp : s.parent <;> rw [hp] at hpc hpipe <;> first | exact hpc.elim | exact hpipe.2
  have hs' : s' = s.leave r := parent_leaves hpc hs hend
  have horphan : Orphan s' := by
    subst hs'
    exact ⟨⟨r,rfl⟩,hchild,hbytes⟩
  have hreached : Reached (CowState.step k) (fun _ e => e.who = .child2 → e.Calm) s' s'' :=
    .of_foldlM_ok es (fun e he _ => hes e he) .start hrun
  exact (hreached.invariant Orphan horphan fun s e s' hs hok hstep => hs.step hok hstep).child2

theorem cow_orphan_copyingKernel : ∃ s s' : CowState,
    Reached (CowState.step copyingKernel) (fun _ _ => True) (.start copyingKernel) s ∧
      s.step copyingKernel ⟨.parent,.fails 12⟩ = some s' ∧ s'.child2 = .read := by
  obtain ⟨s,s',hs,hchild,hpc,hstep,r,hend⟩ : ∃ s s' : CowState,
      firstHalf.foldlM (CowState.step copyingKernel) (.start copyingKernel) = some s ∧
        s.child2 = .read ∧ s.parent = .getShadow ∧
        s.step copyingKernel ⟨.parent,.fails 12⟩ = some s' ∧ ∃ r, s'.parent = .ended r :=
    ⟨_,_,rfl,rfl,rfl,rfl,_,rfl⟩
  have h := Reached.of_foldlM firstHalf .start hs
  exact ⟨s,s',h,hstep,cow_orphan h hchild (by rw [hpc]; trivial) hstep hend [] (by simp) rfl⟩

/-- Nobody's call can succeed. -/
def Stuck (k : Kernel) (s : CowState) : Prop :=
  ∀ w, s.step k ⟨w,.goes⟩ = none ∧ ∀ st, s.step k ⟨w,.incore st⟩ = none

theorem Orphan.stuck {st : WaitStatus} (h : Orphan s) (hst : s.child1 = .ended st) :
    Stuck k s := by
  obtain ⟨⟨r,hr⟩,hchild,hbytes⟩ := h
  intro w
  cases w with
  | parent => exact ⟨by simp [CowState.step,CowState.parentStep,CowState.parentGoes,hr],
      fun _ => by simp [CowState.step,CowState.parentStep,CowState.parentIncore,hr]⟩
  | child1 => simp [CowState.step,CowState.child,hst,ended_step]
  | child2 => simp [CowState.step,CowState.child,hchild,childStep,hbytes]

theorem child_stuck {w : Who} {sp : Who → Space} {bytes : Nat} {c : Child}
    (hgoes : childStep k sp bytes w c .goes = none)
    (hincore : ∀ st, childStep k sp bytes w c (.incore st) = none) :
    c = .unborn ∨ (∃ st, c = .ended st) ∨ c = .read ∧ bytes = 0 := by
  cases c with
  | unborn => exact .inl rfl
  | ended st => exact .inr (.inl ⟨st,rfl⟩)
  | read =>
    by_cases hb : bytes = 0
    · exact .inr (.inr ⟨rfl,hb⟩)
    · simp [childStep,hb] at hgoes
  | mincore =>
    have hnone := hincore fun _ => 0
    simp [childStep] at hnone
  | _ => simp [childStep] at hgoes

/-- Where nobody can go on the parent has reported, and a child that is still there is a
second one that the parent has left behind with a failure. -/
theorem cow_stuck (h : Reached (CowState.step k) (fun _ _ => True) (.start k) s)
    (hstuck : Stuck k s) : ∃ r, s.parent = .ended r ∧
      (s.child1 = .unborn ∨ ∃ st, s.child1 = .ended st) ∧
      (s.child2 = .unborn ∨ (∃ st, s.child2 = .ended st) ∨ s.child2 = .read ∧ r ≠ .success) := by
  have hpiped := reached_piped h
  have hat := hpiped.pipe
  have h1 : s.child1 = .unborn ∨ (∃ st, s.child1 = .ended st) ∨ s.child1 = .read ∧ s.bytes = 0 :=
    child_stuck (Option.map_eq_none_iff.mp (hstuck .child1).1)
      fun st => Option.map_eq_none_iff.mp ((hstuck .child1).2 st)
  have h2 : s.child2 = .unborn ∨ (∃ st, s.child2 = .ended st) ∨ s.child2 = .read ∧ s.bytes = 0 :=
    child_stuck (Option.map_eq_none_iff.mp (hstuck .child2).1)
      fun st => Option.map_eq_none_iff.mp ((hstuck .child2).2 st)
  have hgoes : s.parentGoes k = none := (hstuck .parent).1
  have hincore : ∀ st, s.parentIncore st = none := (hstuck .parent).2
  have h1' : s.child1 = .unborn ∨ ∃ st, s.child1 = .ended st := by
    rcases h1 with h1 | h1 | ⟨h1,-⟩
    · exact .inl h1
    · exact .inr h1
    · exact absurd h1 hpiped.child1
  cases hpc : s.parent with
  | ended r =>
    refine ⟨r,rfl,h1',?_⟩
    rcases h2 with h2 | h2 | ⟨h2,hzero⟩
    · exact .inl h2
    · exact .inr (.inl h2)
    · refine .inr (.inr ⟨h2,fun hr => ?_⟩)
      rw [hpc] at hat
      have hone : s.bytes = 1 := hat hr h2
      omega
  | wait1 =>
    rw [hpc] at hat
    rcases h1' with h1 | ⟨st,h1⟩
    · exact absurd h1 hat.1
    · simp [CowState.parentGoes,hpc,h1] at hgoes
  | wait2 =>
    rw [hpc] at hat
    rcases h2 with h2 | ⟨st,h2⟩ | ⟨h2,hb⟩
    · exact absurd h2 hat.1
    · simp [CowState.parentGoes,hpc,h2] at hgoes
    · exact absurd (hb.symm.trans (hat.2 h2)) (by decide)
  | mincore =>
    have hnone := hincore fun _ => 0
    simp [CowState.parentIncore,hpc] at hnone
  | _ => simp [CowState.parentGoes,hpc] at hgoes

theorem cow_stuck_copyingKernel : ∃ s : CowState, Stuck copyingKernel s ∧
    ∃ r, s.parent = .ended r ∧ (s.child1 = .unborn ∨ ∃ st, s.child1 = .ended st) ∧
      (s.child2 = .unborn ∨ (∃ st, s.child2 = .ended st) ∨ s.child2 = .read ∧ r ≠ .success) := by
  obtain ⟨s,hs,⟨st,hst⟩,horphan⟩ : ∃ s : CowState,
      (firstHalf ++ [CowEvent.mk .parent (.fails 12)]).foldlM (CowState.step copyingKernel)
        (.start copyingKernel) = some s ∧ (∃ st, s.child1 = .ended st) ∧ Orphan s :=
    ⟨_,rfl,⟨_,rfl⟩,⟨_,rfl⟩,rfl,rfl⟩
  exact ⟨s,horphan.stuck hst,cow_stuck (.of_foldlM _ .start hs) (horphan.stuck hst)⟩

end CheriOsTest.CowRevoke
