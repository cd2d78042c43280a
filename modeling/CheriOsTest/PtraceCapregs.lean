import CheriOsTest.Ptrace
set_option autoImplicit false
set_option mvcgen.warning false

/-! What the tests of `PTRACE_SETREGSET` promise: a success that rests on what was read back,
and a child that goes on with the registers it had. -/

namespace CheriOsTest.Ptrace
open CheriOsTest.CStrings CheriOsTest.Harness CheriOsTest.Lenses CheriOsTest.LoggedCalls
open CheriOsTest.Programs CheriOsTest.Quarantine CheriOsTest.Revoke Std.Do

variable {σ R : Type} {w : Nat}

/-- What a state of the kernel says of a child. -/
structure View (σ R : Type) where
  regs : Pid → σ → R
  stopped : Pid → σ → Prop

/-- A kernel that does what it is asked with a child that is stopped. -/
structure Faithful (k : Kernel σ R) (v : View σ R) : Prop where
  stops : ∀ pid s sig, (k.waitpid pid s).1 = (pid.val,.stopped sig) →
    v.stopped pid (k.waitpid pid s).2
  forked : ∀ pid s, (k.fork s).1 = some pid →
    ∃ sig, (k.waitpid pid (k.fork s).2).1 = (pid.val,.stopped sig)
  get : ∀ pid buf s, v.stopped pid s → ∃ s', k.getRegset pid buf s = ((0,v.regs pid s),s') ∧
    v.stopped pid s' ∧ v.regs pid s' = v.regs pid s
  set : ∀ pid regs s, v.stopped pid s → ∃ s', k.setRegset pid regs s = (0,s') ∧
    v.stopped pid s' ∧ v.regs pid s' = regs
  resumed : ∀ pid s, v.stopped pid s → ∃ s' code s'', k.ptContinue pid s = (0,s') ∧
    k.waitpid pid s' = ((pid.val,.exited code),s'')

/-- A register set that was read after a write shows the value that was written, and its tag. -/
def Layout.ShownAfterWrite (l : Layout R w) (log : List (Event σ R)) : Prop :=
  ∃ ret ret' written shown, [.set ret written,.get ret' shown].Sublist log ∧ ret' ≠ -1 ∧
    l.reg.get shown = l.reg.get written ∧ l.tag shown = true

/-- A child that has stopped is resumed with the registers it stopped with. -/
def View.Restored (v : View σ R) (log : List (Event σ R)) : Prop :=
  ∀ pid sig s, .wait pid pid (.stopped sig) s ∈ log →
    ∃ s', [.wait pid pid (.stopped sig) s,.resume pid 0 s'].Sublist log ∧
      v.regs pid s' = v.regs pid s

/-- How a test is meant to end. -/
def Layout.Meets (l : Layout R w) (k : Kernel σ R) :
    EStateM.Result End (Run σ (Event σ R)) Unit → Prop
  | .ok _ _ => False
  | .error e r => (e = .success → l.ShownAfterWrite r.log) ∧
    ∀ v : View σ R, Faithful k v → v.Restored r.log

section Restoring

variable (l : Layout R w)

/-- What saving, setting and restoring leave of the bitmap. -/
def Layout.cycled (tags : BitVec w) : BitVec w :=
  let marked := (Lens.bit l.setBit).set true tags
  if (Lens.bit l.savedBit).get tags then marked else (Lens.bit l.clearedBit).set false marked

theorem Layout.oldTag_eq_zero_iff (regs : R) :
    (l.save regs).oldTag = 0 ↔ (Lens.bit l.savedBit).get (l.tags.get regs) = false := by
  rw [save,Lens.shiftRight_and_one]
  cases (Lens.bit l.savedBit).get (l.tags.get regs)
  · simp
  · simp [BitVec.setWidth_ofNat_one_eq_ofNat_one_of_lt (Nat.zero_lt_of_lt l.savedBit.isLt)]

theorem Layout.restored_forged (regs : R) :
    l.restored (l.save regs) (l.forged regs) =
      l.tags.set (l.cycled (l.tags.get regs)) regs := by
  have hreg : l.reg.set (l.save regs).oldVal (l.forged regs) =
      l.tags.set ((Lens.bit l.setBit).set true (l.tags.get regs)) regs := by
    rw [forged,l.apart.symm.get_set,l.apart,save,Lens.set_get_set]
    rfl
  simp only [restored,hreg,l.oldTag_eq_zero_iff,l.tags.get_set,l.tags.set_set,cycled]
  cases (Lens.bit l.savedBit).get (l.tags.get regs)
  · rfl
  · rfl

theorem Layout.restored_forged_eq_iff (regs : R) :
    l.restored (l.save regs) (l.forged regs) = regs ↔ l.cycled (l.tags.get regs) = l.tags.get regs := by
  rw [l.restored_forged,Lens.set_eq_self_iff,eq_comm]

theorem Layout.cycled_eq_self_iff (hclear : l.clearedBit = l.setBit) (tags : BitVec w) :
    l.cycled tags = tags ↔ (Lens.bit l.savedBit).get tags = (Lens.bit l.setBit).get tags := by
  have hcycled : l.cycled tags = (Lens.bit l.setBit).set ((Lens.bit l.savedBit).get tags) tags := by
    rw [cycled,hclear]
    cases (Lens.bit l.savedBit).get tags
    · exact (Lens.bit l.setBit).set_set false true tags
    · rfl
  rw [hcycled,Lens.set_eq_self_iff,eq_comm]

/-- Every register set comes back exactly when the bit that is set is also the one that was
saved and the one that is cleared. -/
theorem Layout.restores_all_iff :
    (∀ regs, l.restored (l.save regs) (l.forged regs) = regs) ↔
      l.savedBit = l.setBit ∧ l.clearedBit = l.setBit := by
  constructor
  · intro hall
    have hcycled : ∀ tags, l.cycled tags = tags := fun tags => by
      have htags := (l.restored_forged_eq_iff _).mp (hall (l.tags.set tags l.zeroed))
      rwa [l.tags.get_set] at htags
    have hclear : l.clearedBit = l.setBit := by
      by_contra hne
      have hset : (Lens.bit l.setBit).get (l.cycled 0) = true := by
        rw [cycled,if_neg (by simp [Lens.bit]),(Lens.bit_apart (Ne.symm hne)).get_set,
          (Lens.bit l.setBit).get_set]
      rw [hcycled] at hset
      simp [Lens.bit] at hset
    refine ⟨?_,hclear⟩
    by_contra hne
    have hset := (l.cycled_eq_self_iff hclear _).mp (hcycled ((Lens.bit l.setBit).set true 0))
    rw [(Lens.bit_apart hne).get_set,(Lens.bit l.setBit).get_set] at hset
    simp [Lens.bit] at hset
  · rintro ⟨hsave,hclear⟩ regs
    rw [l.restored_forged_eq_iff,l.cycled_eq_self_iff hclear,hsave]

end Restoring

section Checks

theorem check_verify (c : Prop) [Decidable c] (msg : CString) :
    (check (verify c msg) : Test σ R Unit) =
      if c then pure () else throw (.failure (.errx msg)) := by
  rw [check,verify,orLeave_failIf,ite_not]

theorem check_verifyCond (c : Prop) [Decidable c] (cond : CString) :
    (check (verifyCond c cond) : Test σ R Unit) =
      if c then pure () else throw (.failure (.errx (cstr "'" ++ cond ++ cstr "' is FALSE!"))) := by
  rw [verifyCond,check_verify]

theorem check_ok {α : Type} (a : α) : (check (.ok a) : Test σ R α) = pure a := rfl

theorem check_error {α : Type} (e : Stop) :
    (check (.error e) : Test σ R α) = throw (.failure e) := rfl

theorem checkRegset_eq (l : Layout R w) (request iov : String) (ret : Int) :
    (checkRegset l request iov ret : Test σ R Unit) = if ret = -1 then
      throw (.failure (.err (cstr "Call '" ++ l.call request iov ++ cstr "' failed"))) else pure () := by
  by_cases h : ret = -1
  · rw [checkRegset,if_pos h,if_pos h]
    rfl
  · rw [checkRegset,if_neg h,if_neg h]
    rfl

end Checks

section AnyKernel

variable {l : Layout R w} {k : Kernel σ R} {log : List (Event σ R)}

theorem Layout.ShownAfterWrite.append (h : l.ShownAfterWrite log) (log' : List (Event σ R)) :
    l.ShownAfterWrite (log ++ log') := by
  obtain ⟨ret,ret',written,shown,hlog,hshown⟩ := h
  exact ⟨ret,ret',written,shown,hlog.trans (List.sublist_append_left log log'),hshown⟩

/-- The check of the tag is right where it looks at the register's own bit. -/
theorem Layout.checked_iff (hcheck : l.checkedBit = l.tagBit) (regs : R) :
    (l.tags.get regs >>> l.checkedBit.val) &&& 1#w = 1#w ↔ l.tag regs = true := by
  have hne : ¬ (0#w = 1#w) := fun h => by
    have hbit := congrArg (fun b => b.getLsbD 0) h
    simp [Nat.zero_lt_of_lt l.tagBit.isLt] at hbit
  rw [hcheck,Lens.shiftRight_and_one,tag]
  cases (Lens.bit l.tagBit).get (l.tags.get regs)
  · simpa using hne
  · simp

theorem Layout.ShownAfterWrite.of_get {ret ret' : Int} {written shown : R}
    (hlog : [.set ret written].Sublist log) (hret : ret' ≠ -1)
    (hreg : l.reg.get shown = l.reg.get written) (htag : l.tag shown = true) :
    l.ShownAfterWrite (log ++ [.get ret' shown]) :=
  ⟨ret,ret',written,shown,hlog.append (List.Sublist.refl _),hret,hreg,htag⟩

theorem Layout.reg_forged (l : Layout R w) (regs : R) : l.reg.get (l.forged regs) = l.pcc regs := by
  rw [forged,l.apart.get_set,l.reg.get_set]

/-- The register set in the log that a test has written, with the value it expects to see. -/
def Layout.Written (l : Layout R w) (saved : Saved) (log : List (Event σ R)) : Prop :=
  ∃ ret written, [.set ret written].Sublist log ∧ saved.newVal = l.reg.get written

theorem forkChild_fails (k : Kernel σ R) :
    ⦃fun _ => ⌜True⌝⦄ forkChild k ⦃post⟨fun _ _ => ⌜True⌝,fun e _ => ⌜e ≠ .success⌝⟩⦄ := by
  mvcgen [forkChild,fork,waitpid,check_verifyCond,check_error]
  all_goals
    intro h
    cases h

theorem saveAndWrite_written (l : Layout R w) (k : Kernel σ R) (pid : Pid) :
    ⦃fun _ => ⌜True⌝⦄ saveAndWrite l k pid
    ⦃post⟨fun a r => ⌜l.Written a.1 r.log⌝,fun e _ => ⌜e ≠ .success⌝⟩⦄ := by
  mvcgen [saveAndWrite,ptraceGetregset,ptraceSetregset,checkRegset_eq]
  case vc1.isTrue =>
    intro h
    cases h
  case vc2.isFalse =>
    exact ⟨_,_,List.sublist_append_right _ _,(l.reg_forged _).symm⟩

theorem finishChild_shown (l : Layout R w) (k : Kernel σ R) (pid : Pid) :
    ⦃fun r => ⌜l.ShownAfterWrite r.log⌝⦄ finishChild k pid
    ⦃post⟨fun _ r => ⌜l.ShownAfterWrite r.log⌝,fun e _ => ⌜e ≠ .success⌝⟩⦄ := by
  mvcgen [finishChild,ptContinue,waitpid,check_verifyCond]
  all_goals try (intro h; cases h)
  case vc1.isTrue.isTrue.isTrue hshown _ _ _ =>
    exact (hshown.append _).append _

/-- What is left is a success only behind both checks of what was read back. -/
theorem checkAndRestore_shown (hcheck : l.checkedBit = l.tagBit) (k : Kernel σ R) (pid : Pid)
    (saved : Saved) (ret : Int) :
    ⦃fun r => ⌜l.Written saved r.log⌝⦄ checkAndRestore l k pid saved ret
    ⦃post⟨fun _ _ => ⌜False⌝,fun e r => ⌜e = .success → l.ShownAfterWrite r.log⌝⟩⦄ := by
  have hfinish := finishChild_shown l k pid
  mvcgen [checkAndRestore,check_verify,checkRegset_eq,ptraceGetregset,ptraceSetregset,
    cheriostestSuccess,hfinish]
  -- a check that fails ends the test with a failure
  all_goals try (intro h; cases h)
  case vc3.isTrue.isFalse.isTrue.isTrue.isFalse.pre hwritten _ hret hreg htag _ =>
    obtain ⟨wret,written,hlog,hnew⟩ := hwritten
    have hshown := Layout.ShownAfterWrite.of_get hlog hret (hreg.trans hnew)
      ((Layout.checked_iff hcheck _).mp htag)
    exact hshown.append _
  case vc4.isTrue.isFalse.isTrue.isTrue.isFalse.post.success hshown =>
    exact hshown
  case vc5.isTrue.isFalse.isTrue.isTrue.isFalse.post.except.handle =>
    exact fun hne h => absurd h hne

theorem ptraceSetcapregsMorello_shown {n : Nat} (k : Kernel σ (UserMorelloState n)) :
    ⦃fun _ => ⌜True⌝⦄ ptraceSetcapregsMorello k
    ⦃post⟨fun _ _ => ⌜False⌝,fun e r => ⌜e = .success → (morello n).ShownAfterWrite r.log⌝⟩⦄ := by
  have hfork := forkChild_fails k
  have hrest := checkAndRestore_shown (l := morello n) rfl k
  mvcgen [ptraceSetcapregsMorello,hfork,saveAndWrite_written,hrest]
  all_goals exact fun hne h => absurd h hne

end AnyKernel

section FaithfulKernel

variable {l : Layout R w} {k : Kernel σ R} {v : View σ R} {pid : Pid} {s : σ}

theorem Faithful.forkChild_run (hk : Faithful k v) (s : σ) :
    (∃ e s', (forkChild k).run ⟨s,[]⟩ = .error (.failure e) ⟨s',[.fork none]⟩) ∨
    ∃ pid sig s', v.stopped pid s' ∧ (forkChild k).run ⟨s,[]⟩ =
      .ok pid ⟨s',[.fork (some pid),.wait pid pid (.stopped sig) s']⟩ := by
  cases hfork : (k.fork s).1 with
  | none =>
    refine .inl ⟨.errx (cstr "Could not fork: errno=" ++ fmtD (k.errno (k.fork s).2)),(k.fork s).2,?_⟩
    simp [forkChild,fork,hfork,check_error]
    rfl
  | some pid =>
    obtain ⟨sig,hwait⟩ := hk.forked pid s hfork
    refine .inr ⟨pid,sig,_,hk.stops pid _ sig hwait,?_⟩
    simp [forkChild,fork,waitpid,hfork,hwait,check_verifyCond,WIFSTOPPED]

theorem Faithful.saveAndWrite_run (hk : Faithful k v) (hstop : v.stopped pid s)
    (log : List (Event σ R)) : ∃ s', v.stopped pid s' ∧
      v.regs pid s' = l.forged (v.regs pid s) ∧
      (saveAndWrite l k pid).run ⟨s,log⟩ = .ok (l.save (v.regs pid s),0)
        ⟨s',log ++ [.get 0 (v.regs pid s),.set 0 (l.forged (v.regs pid s))]⟩ := by
  obtain ⟨s₁,hget,hstop₁,-⟩ := hk.get pid l.zeroed s hstop
  obtain ⟨s₂,hset,hstop₂,hregs₂⟩ := hk.set pid (l.forged (v.regs pid s)) s₁ hstop₁
  refine ⟨s₂,hstop₂,hregs₂,?_⟩
  simp [saveAndWrite,ptraceGetregset,ptraceSetregset,checkRegset_eq,hget,hset]

theorem Layout.tag_forged (hset : l.setBit = l.tagBit) (regs : R) :
    l.tag (l.forged regs) = true := by
  rw [tag,forged,l.tags.get_set,← hset]
  exact (Lens.bit l.setBit).get_set true _

theorem Faithful.checkAndRestore_run (hk : Faithful k v) (hcheck : l.checkedBit = l.tagBit)
    (hset : l.setBit = l.tagBit) {regs : R} (hstop : v.stopped pid s)
    (hregs : v.regs pid s = l.forged regs) (log : List (Event σ R)) :
    ∃ s' code s'', v.regs pid s' = l.restored (l.save regs) (l.forged regs) ∧
      (checkAndRestore l k pid (l.save regs) 0).run ⟨s,log⟩ = .error .success ⟨s'',log ++
        [.get 0 (l.forged regs),.set 0 (l.restored (l.save regs) (l.forged regs)),
          .resume pid 0 s',.wait pid pid (.exited code) s'']⟩ := by
  obtain ⟨s₁,hget,hstop₁,-⟩ := hk.get pid l.zeroed s hstop
  rw [hregs] at hget
  obtain ⟨s₂,hset₂,hstop₂,hregs₂⟩ :=
    hk.set pid (l.restored (l.save regs) (l.forged regs)) s₁ hstop₁
  obtain ⟨s₃,code,s₄,hresume,hwait⟩ := hk.resumed pid s₂ hstop₂
  refine ⟨s₂,code,s₄,hregs₂,?_⟩
  have hnew : l.reg.get (l.forged regs) = (l.save regs).newVal := l.reg_forged regs
  have htag := (l.checked_iff hcheck _).mpr (l.tag_forged hset regs)
  simp [checkAndRestore,finishChild,ptraceGetregset,ptraceSetregset,ptContinue,waitpid,
    cheriostestSuccess,checkRegset_eq,check_verify,check_verifyCond,EPERM,hget,hset₂,hresume,
    hwait,hnew,htag,WaitStatus.WIFEXITED]

theorem Faithful.morello_run {n : Nat} {k : Kernel σ (UserMorelloState n)}
    {v : View σ (UserMorelloState n)} (hk : Faithful k v) (s : σ) :
    ∃ e r, (ptraceSetcapregsMorello k).run ⟨s,[]⟩ = .error e r ∧ v.Restored r.log := by
  rcases hk.forkChild_run s with ⟨e,s₁,hfork⟩ | ⟨pid,sig,s₁,hstop,hfork⟩
  · refine ⟨.failure e,⟨s₁,[.fork none]⟩,?_,fun pid sig s₂ hmem => ?_⟩
    · simp [ptraceSetcapregsMorello,hfork]
    · simp at hmem
  · obtain ⟨s₂,hstop₂,hregs₂,hwrite⟩ := hk.saveAndWrite_run (l := morello n) hstop
      [.fork (some pid),.wait pid pid (.stopped sig) s₁]
    obtain ⟨s₃,code,s₄,hregs₃,hcheck⟩ := hk.checkAndRestore_run rfl rfl hstop₂ hregs₂
      ([.fork (some pid),.wait pid pid (.stopped sig) s₁] ++
        [.get 0 (v.regs pid s₁),.set 0 ((morello n).forged (v.regs pid s₁))])
    refine ⟨_,_,Eq.trans ?_ hcheck,fun pid' sig' s' hmem => ?_⟩
    · simp [ptraceSetcapregsMorello,hfork,hwrite]
    · obtain ⟨rfl,-,rfl,rfl⟩ : pid' = pid ∧ pid'.val = pid.val ∧ sig' = sig ∧ s' = s₁ := by
        simpa using hmem
      refine ⟨s₃,?_,?_⟩
      · exact one_after_other (by simp) (by simp)
      · rw [hregs₃]
        exact (morello n).restores_all_iff.mpr ⟨rfl,rfl⟩ _

/-- The Morello test is right about every kernel. -/
theorem ptraceSetcapregsMorello_meets {n : Nat} (k : Kernel σ (UserMorelloState n)) (s : σ) :
    (morello n).Meets k ((ptraceSetcapregsMorello k).run ⟨s,[]⟩) := by
  rcases ends_of_triple (r := ⟨s,[]⟩) (ptraceSetcapregsMorello_shown k) trivial with
    ⟨_,_,-,hfalse⟩ | ⟨e,r,hrun,hshown⟩
  · exact hfalse.elim
  · rw [hrun]
    refine ⟨hshown,fun v hk => ?_⟩
    obtain ⟨e',r',hrun',hrestored⟩ := hk.morello_run s
    rw [hrun] at hrun'
    cases hrun'
    exact hrestored

/-- What the rest of the RISC-V test would do if it were reached: the tag comes back only where
it agrees with the tag of the program counter. -/
theorem Faithful.riscv_rest {k : Kernel σ ElfGregset} {v : View σ ElfGregset}
    (hk : Faithful k v) {regs : ElfGregset} (hstop : v.stopped pid s)
    (hregs : v.regs pid s = riscv.forged regs) (log : List (Event σ ElfGregset)) :
    ∃ e r s', (checkAndRestore riscv k pid (riscv.save regs) 0).run ⟨s,log⟩ = .error e r ∧
      .resume pid 0 s' ∈ r.log ∧
      (v.regs pid s' = regs ↔ (regs.get 33).getLsbD 0 = (regs.get 33).getLsbD 5) := by
  obtain ⟨s₁,code,s₂,hregs₁,hrun⟩ := hk.checkAndRestore_run rfl rfl hstop hregs log
  refine ⟨_,_,s₁,hrun,by simp,?_⟩
  rw [hregs₁,riscv.restored_forged_eq_iff,riscv.cycled_eq_self_iff rfl]
  rfl

theorem Faithful.reads (hk : Faithful k v) (hwait : (k.waitpid pid s).1.1 = pid)
    (hstopped : WIFSTOPPED (k.waitpid pid s).1.2 = true) (buf : R) :
    (k.getRegset pid buf (k.waitpid pid s).2).1.1 = 0 := by
  cases hstatus : (k.waitpid pid s).1.2 with
  | stopped sig =>
    obtain ⟨s',hget,-⟩ := hk.get pid buf _ (hk.stops pid s sig (Prod.ext hwait hstatus))
    rw [hget]
  | exited code => simp [hstatus,WIFSTOPPED] at hstopped
  | signaled sig => simp [hstatus,WIFSTOPPED] at hstopped
  | continued => simp [hstatus,WIFSTOPPED] at hstopped

/-- Nothing is owed to a child that the test was not told of as stopped. -/
theorem View.restored_of_wait (v : View σ R) {fpid : Option Pid} {wpid : Int} {status : WaitStatus}
    (h : wpid = pid → WIFSTOPPED status = false) :
    v.Restored [.fork fpid,.wait pid wpid status s] := by
  intro pid' sig s' hmem
  have hwait : pid' = pid ∧ pid'.val = wpid ∧ WaitStatus.stopped sig = status ∧ s' = s := by
    simpa using hmem
  obtain ⟨rfl,rfl,rfl,-⟩ := hwait
  cases h rfl

end FaithfulKernel

def Machine.Refuses (m : Machine) : Prop :=
  m.zcheripurecap = true ∧ ∀ model, m.model = some model → isRunningOnQemu model = true

/-- What ends the test before its write: the machine, no child, a wait for something else, or
registers that cannot be read. -/
def StopsBeforeWrite (m : Machine) (k : Kernel σ ElfGregset) (s : σ) : Prop :=
  m.Refuses ∨ ∀ pid, (k.fork s).1 = some pid →
    let (wait,s) := k.waitpid pid (k.fork s).2
    wait.1 ≠ pid ∨ ¬ WIFSTOPPED wait.2 ∨ (k.getRegset pid riscv.zeroed s).1.1 = -1

theorem checkQemu_cases (m : Machine) :
    (m.Refuses ∧ ∃ e, m.checkQemu = .error e) ∨ (¬ m.Refuses ∧ m.checkQemu = .ok ()) := by
  rw [Machine.Refuses,Machine.checkQemu]
  by_cases hpure : m.zcheripurecap = true
  · rw [if_pos hpure]
    cases m.model with
    | none => exact .inl ⟨⟨hpure,by simp⟩,_,rfl⟩
    | some model =>
      by_cases hqemu : isRunningOnQemu model = true
      · exact .inl ⟨⟨hpure,by simpa using hqemu⟩,_,if_pos hqemu⟩
      · exact .inr ⟨by simp [hqemu],if_neg hqemu⟩
  · rw [if_neg hpure]
    exact .inr ⟨fun h => hpure h.1,rfl⟩

theorem Layout.meets_failure {l : Layout R w} {k : Kernel σ R} {e : Stop}
    {r : LoggedCalls.Run σ (Event σ R)} (h : ∀ v : View σ R, Faithful k v → v.Restored r.log) :
    l.Meets k (.error (.failure e) r) := by
  refine ⟨fun hsuccess => ?_,h⟩
  cases hsuccess

/-- A log that ends with the only write in it shows nothing. -/
theorem Layout.not_shown_of_last {l : Layout R w} {log : List (Event σ R)} {ret : Int} {written : R}
    (h : ∀ ret written, .set ret written ∉ log) :
    ¬ l.ShownAfterWrite (log ++ [.set ret written]) := by
  rintro ⟨ret₁,ret₂,written₁,shown,hlog,-⟩
  obtain ⟨l₁,l₂,heq,h₁,h₂⟩ := List.sublist_append_iff.mp hlog
  cases l₁ with
  | nil =>
    have hlen := h₂.length_le
    rw [List.nil_append] at heq
    rw [← heq] at hlen
    exact absurd hlen (by simp)
  | cons a l₁ =>
    rw [List.cons_append,List.cons_eq_cons] at heq
    exact h ret₁ written₁ (h₁.subset (heq.1 ▸ List.mem_cons_self))

theorem stopsBeforeWrite_iff {m : Machine} {k : Kernel σ ElfGregset} {s : σ} {pid : Pid}
    (hgoes : ¬ m.Refuses) (hfork : (k.fork s).1 = some pid) :
    StopsBeforeWrite m k s ↔ (k.waitpid pid (k.fork s).2).1.1 ≠ pid ∨
      ¬ WIFSTOPPED (k.waitpid pid (k.fork s).2).1.2 ∨
      (k.getRegset pid riscv.zeroed (k.waitpid pid (k.fork s).2).2).1.1 = -1 := by
  rw [StopsBeforeWrite,or_iff_right hgoes]
  constructor
  · exact fun h => h pid hfork
  · intro h pid' hpid
    rw [hfork] at hpid
    cases hpid
    exact h

theorem riscv_spec (m : Machine) (k : Kernel σ ElfGregset) (s : σ) :
    ⦃fun r => ⌜r = ⟨s,[]⟩⌝⦄ ptraceSetcapregsRiscv m k
    ⦃post⟨fun _ _ => ⌜False⌝,
      fun e r => ⌜riscv.Meets k (.error e r) ↔ StopsBeforeWrite m k s⌝⟩⦄ := by
  rcases checkQemu_cases m with ⟨hrefuses,e,hqemu⟩ | ⟨hgoes,hqemu⟩
  · rw [ptraceSetcapregsRiscv,hqemu]
    mvcgen [check_error]
    case vc1.inl r hr =>
      subst hr
      exact iff_of_true (Layout.meets_failure fun v _ _ _ _ hmem => absurd hmem List.not_mem_nil)
        (.inl hrefuses)
  · rw [ptraceSetcapregsRiscv,hqemu]
    mvcgen [check_ok,forkChild,saveAndWrite,fork,waitpid,ptraceGetregset,ptraceSetregset,
      check_verifyCond,check_error,checkRegset_eq,cheriostestSuccess]
    case vc1.inr.h_1 r hr hfork =>
      subst hr
      refine iff_of_true (Layout.meets_failure fun v _ pid sig s' hmem => ?_) (.inr fun pid hpid => ?_)
      · simp at hmem
      · rw [hfork] at hpid
        cases hpid
    case vc2.inr.h_2.isTrue.isTrue.isTrue r hr pid hfork hwait hstopped hget =>
      subst hr
      refine iff_of_true (Layout.meets_failure fun v hk => ?_)
        ((stopsBeforeWrite_iff hgoes hfork).mpr (.inr (.inr hget)))
      rw [hk.reads hwait hstopped] at hget
      cases hget
    case vc3.inr.h_2.isTrue.isTrue.isFalse r hr pid hfork hwait hstopped hget =>
      -- the write is the last thing in the log
      subst hr
      refine iff_of_false (fun hmeets => ?_) (fun hstops => ?_)
      · exact Layout.not_shown_of_last (by simp) (hmeets.1 rfl)
      · rcases (stopsBeforeWrite_iff hgoes hfork).mp hstops with hne | hne | hne
        · exact hne hwait
        · exact hne hstopped
        · exact hget hne
    case vc4.inr.h_2.isTrue.isFalse r hr pid hfork hwait hstopped =>
      subst hr
      exact iff_of_true
        (Layout.meets_failure fun v _ => v.restored_of_wait fun _ => Bool.eq_false_iff.mpr hstopped)
        ((stopsBeforeWrite_iff hgoes hfork).mpr (.inr (.inl hstopped)))
    case vc5.inr.h_2.isFalse r hr pid hfork hwait =>
      subst hr
      exact iff_of_true (Layout.meets_failure fun v _ => v.restored_of_wait fun h => absurd h hwait)
        ((stopsBeforeWrite_iff hgoes hfork).mpr (.inl hwait))

/-- The RISC-V test does what it is meant to do exactly when it stops before it has written
anything: from then on it reports a success that nothing has shown. -/
theorem ptrace_setcapregs_iff (m : Machine) (k : Kernel σ ElfGregset) (s : σ) :
    riscv.Meets k ((ptraceSetcapregsRiscv m k).run ⟨s,[]⟩) ↔ StopsBeforeWrite m k s := by
  rcases ends_of_triple (riscv_spec m k s) rfl with ⟨_,_,-,hfalse⟩ | ⟨e,r,hrun,hiff⟩
  · exact hfalse.elim
  · rw [hrun]
    exact hiff

/-- A child with its registers, which has been resumed or not. -/
structure Tracee where
  regs : ElfGregset
  running : Bool

/-- A kernel that does what it is asked. -/
def honest : Kernel Tracee ElfGregset where
  fork s := (some ⟨100,by decide⟩,{ s with running := false })
  waitpid pid s := ((pid,if s.running then .exited 0 else .stopped 19),s)
  getRegset _ _ s := ((0,s.regs),s)
  setRegset _ regs s := (0,{ s with regs := regs })
  ptContinue _ s := (0,{ s with running := true })
  errno _ := 0

def honestView : View Tracee ElfGregset where
  regs _ s := s.regs
  stopped _ s := s.running = false

theorem honest_faithful : Faithful honest honestView where
  stops pid s sig h := by
    cases hrunning : s.running
    · exact hrunning
    · simp [honest,hrunning] at h
  forked pid s _ := ⟨19,rfl⟩
  get pid buf s hstop := ⟨s,rfl,hstop,rfl⟩
  set pid regs s hstop := ⟨{ s with regs := regs },rfl,hstop,rfl⟩
  resumed pid s _ := ⟨{ s with running := true },0,{ s with running := true },rfl,rfl⟩

def honestLog (regs : ElfGregset) : List (Event Tracee ElfGregset) :=
  [.fork (some ⟨100,by decide⟩),.wait ⟨100,by decide⟩ 100 (.stopped 19) ⟨regs,false⟩,.get 0 regs]

theorem honest_run (regs : ElfGregset) :
    (ptraceSetcapregsRiscv ⟨false,none⟩ honest).run ⟨⟨regs,false⟩,[]⟩ =
      .error .success ⟨⟨riscv.forged regs,false⟩,honestLog regs ++ [.set 0 (riscv.forged regs)]⟩ :=
  rfl

/-- A success after which the child is still stopped, and one after a write that was refused. -/
theorem success_without_check :
    (∃ r, (ptraceSetcapregsRiscv ⟨false,none⟩ honest).run ⟨⟨riscv.zeroed,false⟩,[]⟩ =
        .error .success r ∧ ¬ riscv.ShownAfterWrite r.log ∧
        Faithful honest honestView ∧ ¬ honestView.Restored r.log) ∧
    (∃ r, (ptraceSetcapregsRiscv ⟨false,none⟩
        { honest with setRegset := fun _ _ s => (-1,s) }).run ⟨⟨riscv.zeroed,false⟩,[]⟩ =
        .error .success r) ∧
    ¬ riscv.Meets honest
      ((ptraceSetcapregsRiscv ⟨false,none⟩ honest).run ⟨⟨riscv.zeroed,false⟩,[]⟩) := by
  have hrun := honest_run riscv.zeroed
  have hshown : ¬ riscv.ShownAfterWrite
      (honestLog riscv.zeroed ++ [.set 0 (riscv.forged riscv.zeroed)]) :=
    Layout.not_shown_of_last (by simp [honestLog])
  refine ⟨⟨_,hrun,hshown,honest_faithful,fun hrestored => ?_⟩,⟨_,rfl⟩,fun hmeets => ?_⟩
  · obtain ⟨s',hlog,-⟩ := hrestored ⟨100,by decide⟩ 19 ⟨riscv.zeroed,false⟩ (by simp [honestLog])
    have hresume := hlog.subset (List.mem_cons_of_mem _ List.mem_cons_self)
    simp [honestLog] at hresume
  · rw [hrun] at hmeets
    exact hshown (hmeets.1 rfl)

end CheriOsTest.Ptrace
