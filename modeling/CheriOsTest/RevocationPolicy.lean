import CheriOsTest.RevocationCtl
set_option autoImplicit false

/-! Revocation control from end to end: the helpers as the build makes them, a kernel that
follows the policy, and the verdicts of the harness on the ten tests. -/

namespace CheriOsTest.RevocationCtl
open CheriOsTest.CStrings CheriOsTest.Harness CheriOsTest.Programs CheriOsTest.Elf

/-- `malloc_revoke_enabled.c`. -/
def mallocRevokeEnabledMain (enabled : Bool) : WaitStatus := .exited (if enabled then 0 else 1)

/-- The policy that the tests expect: a setting of `procctl`, which a privileged program
drops, then the note, then the default. It says nothing of a note with both bits. -/
def decision (byDefault privileged : Bool) (ctl : Option RevokeCtl) (features : UInt32) :
    Option Bool :=
  match privileged,ctl with
  | false,some c => some (decide (c = .forceEnable))
  | _,_ =>
    match features.toBitVec.getLsbD 31,features.toBitVec.getLsbD 5 with
    | true,true => none
    | true,false => some true
    | false,true => some false
    | false,false => some byDefault

def Kernel.byDefault (k : Kernel) : Bool := k.runtimeRevocationDefault.any (· ≠ 0)

/-- The kernel runs the helpers where the tests look for them, under the policy. The setuid
bit of a program on p9fs does not count. -/
structure Follows (k : Kernel) (dir : CString) (hs : List (CString × Program)) : Prop where
  runs : ∀ name p, (name,p) ∈ hs → ∀ ehdr off, Located p.file ehdr off → ∀ ctl b,
    decision k.byDefault (p.setuid && !k.p9fs) ctl (wordAt p.file off.toNat) = some b →
    k.execve ctl (helperPath dir name) = some (mallocRevokeEnabledMain b)

/-- What the tool makes of the word of the note. -/
def noteWord (features : CString) (w : UInt32) : UInt32 :=
  match parseRequest features with
  | none => w
  | some req => req.apply w

/-- The answer of the policy for a helper whose program had no bit set. -/
def expected (byDefault privileged : Bool) (ctl : Option RevokeCtl) (req : Option Request) : Bool :=
  match privileged,ctl,req with
  | false,some c,_ => decide (c = .forceEnable)
  | _,_,some req => decide (req = .cherirevoke)
  | _,_,none => byDefault

/-- The program that is made first and the variants. -/
def programs : List (CString × CString) := (cstr "malloc_revoke_enabled",[]) :: variants

def isSuid (tree : Tree) (name : CString) : Bool :=
  decide (tree = .installed ∧ cstr "_suid" <:+: name)

section Build

variable {tree : Tree} {libexec elfctl : CString} {target : List UInt8}
  {hs : List (CString × Program)}

/-- A variant holds the note of its program, rewritten as the features ask for. -/
theorem variant_eq_ok {name features : CString} {made : CString × Program}
    (hfeat : features ≠ [] → (parseRequest features).isSome)
    (h : addMallocRevokeEnabledVariant tree libexec elfctl target name features = .ok made) :
    (features ≠ [] → ∃ ehdr off, Located target ehdr off) ∧
    ∀ ehdr off, Located target ehdr off → Apart target ehdr off.toNat →
      ∃ file, made = (name,⟨file,isSuid tree name⟩) ∧ Located file ehdr off ∧
        wordAt file off.toNat = noteWord features (wordAt target off.toNat) := by
  rw [addMallocRevokeEnabledVariant] at h
  by_cases hf : features = []
  · rw [if_pos hf] at h
    have hm := Except.ok.inj h
    have hnone : parseRequest features = none := by rw [hf]; decide
    refine ⟨fun hne => absurd hf hne,fun ehdr off hl _ => ⟨target,hm.symm,hl,?_⟩⟩
    rw [noteWord,hnone]
  · rw [if_neg hf] at h
    obtain ⟨req,hreq⟩ := Option.isSome_iff_exists.mp (hfeat hf)
    simp only [bind_eq_ok] at h
    obtain ⟨u,hexit,hm⟩ := h
    rcases main_cases ⟨true,true⟩ [elfctl,features,helperPath libexec name] target with
      ⟨e,hmain⟩ | ⟨_,_,_,_,ehdr,off,-,-,hl,-⟩
    · rw [hmain] at hexit
      cases hexit
    · refine ⟨fun _ => ⟨ehdr,off,hl⟩,fun ehdr' off' hl' ha => ?_⟩
      rw [main_of_located hreq hl'] at hm
      refine ⟨_,(Except.ok.inj hm).symm,hl'.of_patch ha _,?_⟩
      rw [wordAt_patch hl'.inside,noteWord,hreq]

theorem parseRequest_features : parseRequest (cstr "+nocherirevoke") = some .nocherirevoke ∧
    parseRequest (cstr "+cherirevoke") = some .cherirevoke :=
  ⟨parseRequest_arg .nocherirevoke,parseRequest_arg .cherirevoke⟩

theorem variants_features : ∀ v ∈ variants, v.2 ≠ [] → (parseRequest v.2).isSome := by
  obtain ⟨hdisable,henable⟩ := parseRequest_features
  simp [variants,hdisable,henable]

theorem isSuid_names (tree : Tree) :
    isSuid tree (cstr "malloc_revoke_enabled") = false ∧
      isSuid tree (cstr "malloc_revoke_enabled_elfnote_disable") = false ∧
      isSuid tree (cstr "malloc_revoke_enabled_elfnote_enable") = false ∧
      isSuid tree (cstr "malloc_revoke_enabled_suid_elfnote_disable") =
        decide (tree = .installed) ∧
      isSuid tree (cstr "malloc_revoke_enabled_suid_elfnote_enable") =
        decide (tree = .installed) := by
  have hnames : ¬ cstr "_suid" <:+: cstr "malloc_revoke_enabled" ∧
      ¬ cstr "_suid" <:+: cstr "malloc_revoke_enabled_elfnote_disable" ∧
      ¬ cstr "_suid" <:+: cstr "malloc_revoke_enabled_elfnote_enable" ∧
      cstr "_suid" <:+: cstr "malloc_revoke_enabled_suid_elfnote_disable" ∧
      cstr "_suid" <:+: cstr "malloc_revoke_enabled_suid_elfnote_enable" := by decide +kernel
  simp [isSuid,hnames]

theorem helpers_eq_ok (h : helpers tree libexec elfctl target = .ok hs)
    (hapart : ∀ ehdr off, Located target ehdr off → Apart target ehdr off.toNat) :
    ∃ ehdr off, Located target ehdr off ∧ ∀ v ∈ programs, ∃ file,
      (v.1,⟨file,isSuid tree v.1⟩) ∈ hs ∧ Located file ehdr off ∧
        wordAt file off.toNat = noteWord v.2 (wordAt target off.toNat) := by
  simp only [helpers,bind_eq_ok,pure,Except.pure,Except.ok.injEq] at h
  obtain ⟨made,hmade,rfl⟩ := h
  have hmem := mem_of_mapM hmade
  have hfirst : (cstr "malloc_revoke_enabled_elfnote_disable",cstr "+nocherirevoke") ∈
      variants := List.mem_cons_self
  obtain ⟨b,-,hb⟩ := hmem _ hfirst
  obtain ⟨ehdr,off,hl⟩ := (variant_eq_ok (variants_features _ hfirst) hb).1 (by decide)
  refine ⟨ehdr,off,hl,fun v hv => ?_⟩
  rcases List.mem_cons.mp hv with rfl | hv
  · have hnone : parseRequest [] = none := by decide
    refine ⟨target,?_,hl,by simp [noteWord,hnone]⟩
    rw [(isSuid_names tree).1]
    exact List.mem_cons_self
  · obtain ⟨b,hb,hv'⟩ := hmem v hv
    have hmade := (variant_eq_ok (variants_features v hv) hv').2 ehdr off hl (hapart ehdr off hl)
    obtain ⟨file,rfl,hrest⟩ := hmade
    exact ⟨file,List.mem_cons_of_mem _ hb,hrest⟩

theorem noteWord_bits (features : CString) {w : UInt32} (henable : w.toBitVec.getLsbD 31 = false)
    (hdisable : w.toBitVec.getLsbD 5 = false) :
    (noteWord features w).toBitVec.getLsbD 31 =
        decide (parseRequest features = some .cherirevoke) ∧
      (noteWord features w).toBitVec.getLsbD 5 =
        decide (parseRequest features = some .nocherirevoke) := by
  rw [noteWord]
  cases parseRequest features with
  | none => exact ⟨henable,hdisable⟩
  | some req =>
    rw [Request.apply_bit,Request.apply_bit]
    cases req <;> exact ⟨rfl,rfl⟩

/-- Where the program has neither bit, the policy has an answer for all its helpers. -/
theorem decision_noteWord (byDefault privileged : Bool) (ctl : Option RevokeCtl)
    (features : CString) {w : UInt32} (henable : w.toBitVec.getLsbD 31 = false)
    (hdisable : w.toBitVec.getLsbD 5 = false) :
    decision byDefault privileged ctl (noteWord features w) =
      some (expected byDefault privileged ctl (parseRequest features)) := by
  obtain ⟨h31,h5⟩ := noteWord_bits features henable hdisable
  unfold decision
  rw [h31,h5]
  cases parseRequest features with
  | none => cases privileged <;> cases ctl <;> rfl
  | some req => cases req <;> cases privileged <;> cases ctl <;> rfl

end Build

section Policy

variable {tree : Tree} {libexec elfctl dir : CString} {target : List UInt8} {k : Kernel}
  {hs : List (CString × Program)}

/-- The program's note sets neither bit. -/
def Unset (target : List UInt8) : Prop :=
  ∀ ehdr off, Located target ehdr off →
    (wordAt target off.toNat).toBitVec.getLsbD 31 = false ∧
      (wordAt target off.toNat).toBitVec.getLsbD 5 = false

theorem Follows.execve (hk : Follows k dir hs)
    (hbuild : helpers tree libexec elfctl target = .ok hs)
    (hapart : ∀ ehdr off, Located target ehdr off → Apart target ehdr off.toNat)
    (hunset : Unset target) (ctl : Option RevokeCtl) : ∀ v ∈ programs,
      k.execve ctl (helperPath dir v.1) = some (mallocRevokeEnabledMain
        (expected k.byDefault (isSuid tree v.1 && !k.p9fs) ctl (parseRequest v.2))) := by
  intro v hv
  obtain ⟨ehdr,off,hl,hprograms⟩ := helpers_eq_ok hbuild hapart
  obtain ⟨file,hmem,hfile,hw⟩ := hprograms v hv
  obtain ⟨henable,hdisable⟩ := hunset ehdr off hl
  refine hk.runs v.1 _ hmem ehdr off hfile ctl _ ?_
  rw [hw,decision_noteWord _ _ _ _ henable hdisable]

theorem passes_of_execve {t : CtlTest} {b : Bool} (hfork : k.fork = true)
    (hctl : ∀ arg, k.procctl arg = .ok ())
    (h : k.execve t.procctlArg (helperPath dir t.progname) = some (mallocRevokeEnabledMain b)) :
    t.Passes k dir ↔ b = t.shouldBeRevoking := by
  have herror : ∀ arg strerror, k.procctl arg ≠ .error strerror := by simp [hctl]
  rw [CtlTest.Passes,h]
  cases b <;> cases t.shouldBeRevoking <;> simp [hfork,hctl,mallocRevokeEnabledMain]

/-- The baseline tests ask for the default. -/
theorem expected_baselineTests {t : CtlTest} (ht : t ∈ baselineTests) :
    ∃ v ∈ programs, v.1 = t.progname ∧ ∀ byDefault privileged,
      (expected byDefault privileged t.procctlArg (parseRequest v.2) = t.shouldBeRevoking ↔
        byDefault = true) := by
  have hnone : parseRequest [] = none := by decide
  simp only [baselineTests,List.mem_cons,List.not_mem_nil,or_false] at ht
  rcases ht with rfl | rfl
  · refine ⟨(cstr "malloc_revoke_enabled",[]),by simp [programs],rfl,fun b privileged => ?_⟩
    cases privileged <;> simp [hnone,expected,mallocRevocationCtlBaseline]
  · refine ⟨(cstr "malloc_revoke_enabled_suid",[]),by simp [programs,variants],rfl,
      fun b privileged => ?_⟩
    cases privileged <;> simp [hnone,expected,mallocRevocationCtlSuidBaseline]

theorem expected_noteTests {t : CtlTest} (ht : t ∈ noteTests) :
    ∃ v ∈ programs, v.1 = t.progname ∧ ∀ byDefault tree p9fs,
      expected byDefault (isSuid tree v.1 && !p9fs) t.procctlArg (parseRequest v.2) =
        t.shouldBeRevoking := by
  obtain ⟨hdisable,henable⟩ := parseRequest_features
  have hprograms : (cstr "malloc_revoke_enabled_elfnote_disable",cstr "+nocherirevoke") ∈ programs ∧
      (cstr "malloc_revoke_enabled_elfnote_enable",cstr "+cherirevoke") ∈ programs := by
    simp [programs,variants]
  have hsuid := fun tree => (isSuid_names tree).2
  simp only [noteTests,List.mem_cons,List.not_mem_nil,or_false] at ht
  rcases ht with rfl | rfl | rfl | rfl | rfl | rfl
  · exact ⟨_,hprograms.1,rfl,fun b tree p9fs => by simp [hsuid,hdisable,expected,
      mallocRevocationCtlElfnoteDisable]⟩
  · exact ⟨_,hprograms.2,rfl,fun b tree p9fs => by simp [hsuid,henable,expected,
      mallocRevocationCtlElfnoteEnable]⟩
  · exact ⟨_,hprograms.1,rfl,fun b tree p9fs => by simp [hsuid,expected,
      mallocRevocationCtlElfnoteDisableProtctlEnable]⟩
  · exact ⟨_,hprograms.2,rfl,fun b tree p9fs => by simp [hsuid,expected,
      mallocRevocationCtlElfnoteEnableProtctlDisable]⟩
  · exact ⟨_,hprograms.1,rfl,fun b tree p9fs => by simp [hsuid,hdisable,expected,
      mallocRevocationCtlSuidElfnoteDisable]⟩
  · exact ⟨_,hprograms.2,rfl,fun b tree p9fs => by simp [hsuid,henable,expected,
      mallocRevocationCtlSuidElfnoteEnable]⟩

/-- The bit decides: without it the setting would reach the helper. -/
theorem expected_suidProtctlTests {t : CtlTest} (ht : t ∈ suidProtctlTests) :
    ∃ v ∈ programs, v.1 = t.progname ∧ ∀ byDefault tree p9fs,
      (expected byDefault (isSuid tree v.1 && !p9fs) t.procctlArg (parseRequest v.2) =
        t.shouldBeRevoking ↔ tree = .installed ∧ p9fs = false) := by
  obtain ⟨hdisable,henable⟩ := parseRequest_features
  have hsuid := fun tree => (isSuid_names tree).2.2.2
  simp only [suidProtctlTests,List.mem_cons,List.not_mem_nil,or_false] at ht
  rcases ht with rfl | rfl
  · refine ⟨(cstr "malloc_revoke_enabled_suid_elfnote_disable",cstr "+nocherirevoke"),
      by simp [programs,variants],rfl,fun b tree p9fs => ?_⟩
    cases tree <;> cases p9fs <;>
      simp [hsuid,hdisable,expected,mallocRevocationCtlSuidElfnoteDisableProtctlEnable]
  · refine ⟨(cstr "malloc_revoke_enabled_suid_elfnote_enable",cstr "+cherirevoke"),
      by simp [programs,variants],rfl,fun b tree p9fs => ?_⟩
    cases tree <;> cases p9fs <;>
      simp [hsuid,henable,expected,mallocRevocationCtlSuidElfnoteEnableProtctlDisable]

theorem skip_baselineTests {t : CtlTest} (ht : t ∈ baselineTests) (hs : t.checkSkip k = none) :
    k.byDefault = true := by
  have hdefault : skipNeedDefaultCheriRevoke k = none := by
    simp only [baselineTests,List.mem_cons,List.not_mem_nil,or_false] at ht
    rcases ht with rfl | rfl <;> exact hs
  rw [skipNeedDefaultCheriRevoke] at hdefault
  rw [Kernel.byDefault]
  cases hv : k.runtimeRevocationDefault with
  | none => simp [hv] at hdefault
  | some value => simpa [hv] using hdefault

theorem skip_suidProtctlTests {t : CtlTest} (ht : t ∈ suidProtctlTests)
    (hs : t.checkSkip k = none) : k.p9fs = false := by
  have hsuid : skipNeedSuidHelpersAndCheriRevoke k = none := by
    simp only [suidProtctlTests,List.mem_cons,List.not_mem_nil,or_false] at ht
    rcases ht with rfl | rfl <;> exact hs
  rw [skipNeedSuidHelpersAndCheriRevoke] at hsuid
  cases hfs : k.fstypename with
  | none => simp [Kernel.p9fs,hfs]
  | some fs =>
    rw [hfs] at hsuid
    split at hsuid
    next => cases hsuid
    next h => cases h
    next =>
      split_ifs at hsuid with hp
      simpa using hp

/-- On a kernel that follows the policy the tests pass from an installed tree, whatever the
program's file is, and on p9fs too. Only the install sets the setuid bit, so that from a
build directory on any other file system the two tests that rely on it fail. -/
theorem ctl_tests_policy (t : CtlTest) (lc : Libc) (os : OS) (o : Options) (w : World)
    (l : Locals) (g : Globals) (hbuild : helpers tree libexec elfctl target = .ok hs)
    (hapart : ∀ ehdr off, Located target ehdr off → Apart target ehdr off.toNat)
    (hunset : Unset target) (hk : Follows k dir hs) (hfork : k.fork = true)
    (hctl : ∀ arg, k.procctl arg = .ok ()) (ht : t ∈ ctlTests) (h : t.RunIn k dir w) :
    ∃ v g', runTest lc os o t.cheriTest w l g = .ok (v,g') ∧
      (v = .skip ↔ t.checkSkip k ≠ none) ∧
      (t.checkSkip k = none → (t ∈ suidProtctlTests → tree = .installed) → v = .pass) ∧
      (t.checkSkip k = none → t ∈ suidProtctlTests → tree = .build → v = .fail) := by
  have hpass : ∀ p ∈ programs, p.1 = t.progname → (t.Passes k dir ↔ expected k.byDefault
      (isSuid tree p.1 && !k.p9fs) t.procctlArg (parseRequest p.2) = t.shouldBeRevoking) := by
    intro p hp hname
    have hexec := hk.execve hbuild hapart hunset t.procctlArg p hp
    rw [hname] at hexec ⊢
    exact passes_of_execve hfork hctl hexec
  have hright : t.checkSkip k = none → (t ∈ suidProtctlTests → tree = .installed) →
      t.Passes k dir := by
    intro hs hinstalled
    simp only [ctlTests,List.mem_append,or_assoc] at ht
    rcases ht with ht | ht | ht
    · obtain ⟨p,hp,hname,hexp⟩ := expected_baselineTests ht
      exact (hpass p hp hname).mpr ((hexp _ _).mpr (skip_baselineTests ht hs))
    · obtain ⟨p,hp,hname,hexp⟩ := expected_noteTests ht
      exact (hpass p hp hname).mpr (hexp _ _ _)
    · obtain ⟨p,hp,hname,hexp⟩ := expected_suidProtctlTests ht
      exact (hpass p hp hname).mpr
        ((hexp _ _ _).mpr ⟨hinstalled ht,skip_suidProtctlTests ht hs⟩)
  have hwrong : t ∈ suidProtctlTests → tree = .build → ¬ t.Passes k dir := by
    intro ht hbuilt hpassed
    obtain ⟨p,hp,hname,hexp⟩ := expected_suidProtctlTests ht
    have hinstalled := ((hexp _ _ _).mp ((hpass p hp hname).mp hpassed)).1
    rw [hbuilt] at hinstalled
    cases hinstalled
  obtain ⟨v,g',hrun,hv⟩ := verdict_cases lc os o l g (allowed_names t ht) h
  refine ⟨v,g',hrun,?_⟩
  rcases hv with ⟨rfl,hs⟩ | ⟨rfl,hs,hp⟩ | ⟨rfl,hs,hp⟩
  · simp [Option.isSome_iff_ne_none.mp hs]
  · refine ⟨by simp [hs],fun _ _ => rfl,fun _ hsuid hbuilt => absurd hp (hwrong hsuid hbuilt)⟩
  · exact ⟨by simp [hs],fun hs hinstalled => absurd (hright hs hinstalled) hp,fun _ _ _ => rfl⟩

end Policy

section PolicyKernel

variable {dir : CString} {hs : List (CString × Program)}

theorem helperPath_inj {name name' : CString} :
    helperPath dir name = helperPath dir name' ↔ name = name' := by
  simp [helperPath]

theorem find_helper {name : CString} {p : Program} (hnames : (hs.map Prod.fst).Nodup)
    (h : (name,p) ∈ hs) :
    hs.find? (fun q => decide (helperPath dir q.1 = helperPath dir name)) = some (name,p) := by
  induction hs with
  | nil => cases h
  | cons q hs ih =>
    simp only [List.map_cons,List.nodup_cons] at hnames
    rcases List.mem_cons.mp h with rfl | h
    · simp
    · have hne : q.1 ≠ name := by
        rintro rfl
        exact hnames.1 (List.mem_map.mpr ⟨_,h,rfl⟩)
      rw [List.find?_cons_of_neg (by simpa [helperPath_inj] using hne)]
      exact ih hnames.2 h

/-- A kernel that finds the helpers by their paths and their words as the tool does. -/
def policyKernel (dir : CString) (hs : List (CString × Program)) : Kernel where
  abi := ⟨.freeBSD,true⟩
  featurePresent := true
  runtimeRevocationDefault := some 1
  fstypename := some (cstr "ufs")
  fork := true
  procctl := fun _ => .ok ()
  execve := fun ctl path => do
    let q ← hs.find? fun q => decide (helperPath dir q.1 = path)
    let found ← (readFeatures [] q.2.file).toOption
    let enabled ← decision true q.2.setuid ctl found.2
    pure (mallocRevokeEnabledMain enabled)

theorem policyKernel_p9fs : (policyKernel dir hs).p9fs = false := by
  change streq (cstr "ufs") (cstr "p9fs") = false
  decide

theorem policyKernel_follows (hnames : (hs.map Prod.fst).Nodup) :
    Follows (policyKernel dir hs) dir hs := by
  constructor
  intro name p hmem ehdr off hl ctl b hb
  have hfound : readFeatures [] p.file = .ok (off,wordAt p.file off.toNat) :=
    readFeatures_eq_ok.mpr ⟨ehdr,hl,rfl⟩
  have hdefault : (policyKernel dir hs).byDefault = true := by rfl
  rw [policyKernel_p9fs,hdefault,Bool.not_false,Bool.and_true] at hb
  simp [policyKernel,find_helper hnames hmem,hfound,Except.toOption,hb]

def testHelpers : List (CString × Program) :=
  match helpers .installed [] [] writeTestElf with
  | .ok hs => hs
  | .error _ => []

theorem testHelpers_built : helpers .installed [] [] writeTestElf = .ok testHelpers := by
  have hok : (helpers .installed [] [] writeTestElf).isOk = true := by decide +kernel
  rw [testHelpers]
  cases h : helpers .installed [] [] writeTestElf with
  | error e => rw [h] at hok; cases hok
  | ok hs => rfl

theorem writeTestElf_unset : Unset writeTestElf := by
  intro ehdr off hl
  have hfound : (readFeatures [] writeTestElf).toOption.map Prod.snd = some 0 := by decide +kernel
  rw [readFeatures_eq_ok.mpr ⟨ehdr,hl,rfl⟩] at hfound
  rw [show wordAt writeTestElf off.toNat = 0 from Option.some.inj hfound]
  exact ⟨rfl,rfl⟩

theorem ctl_tests_policy_installed :
    let t := mallocRevocationCtlSuidElfnoteDisableProtctlEnable
    let k := policyKernel [] testHelpers
    ∃ v g', runTest plainLibc .freeBSD ⟨false,0⟩ t.cheriTest (t.world k []) plainLocals .initial =
        .ok (v,g') ∧ (v = .skip ↔ t.checkSkip k ≠ none) ∧
      (t.checkSkip k = none → (t ∈ suidProtctlTests → Tree.installed = .installed) → v = .pass) ∧
      (t.checkSkip k = none → t ∈ suidProtctlTests → Tree.installed = .build → v = .fail) :=
  ctl_tests_policy mallocRevocationCtlSuidElfnoteDisableProtctlEnable plainLibc .freeBSD ⟨false,0⟩
    _ plainLocals .initial testHelpers_built writeTestElf_apart writeTestElf_unset
    (policyKernel_follows (by decide +kernel)) rfl (fun _ => rfl)
    (by simp [ctlTests,suidProtctlTests])
    (CtlTest.runIn_world _ _ _)

end PolicyKernel

section Seen

variable {k : Kernel} {t : CtlTest} {dir name path : CString} {ctl : Option RevokeCtl}
  {answer : Option WaitStatus}

/-- The kernel with another answer for one program under one setting. -/
def Kernel.answering (k : Kernel) (ctl : Option RevokeCtl) (path : CString)
    (answer : Option WaitStatus) : Kernel :=
  { k with execve := fun c q => if c = ctl ∧ q = path then answer else k.execve c q }

theorem childReport_answering {arg : Option RevokeCtl} {q : CString} (h : arg = ctl → q ≠ path) :
    childReport (k.answering ctl path answer) q arg = childReport k q arg := by
  have hexec : execReport (k.answering ctl path answer) arg q = execReport k arg q := by
    have hother : ¬ (arg = ctl ∧ q = path) := fun hc => h hc.1 hc.2
    simp [execReport,Kernel.answering,hother]
  cases arg with
  | none => exact hexec
  | some arg =>
    have hctl : (k.answering ctl path answer).procctl arg = k.procctl arg := rfl
    rw [childReport,childReport,hctl]
    cases k.procctl arg with
    | error strerror => rfl
    | ok u => exact hexec

theorem body_answering (h : t.procctlArg = ctl → t.progname ≠ name) :
    t.body (k.answering ctl (helperPath dir name) answer) dir = t.body k dir := by
  have hpath : t.procctlArg = ctl → helperPath dir t.progname ≠ helperPath dir name :=
    fun ha => mt helperPath_inj.mp (h ha)
  rw [CtlTest.body,CtlTest.body,mallocRevocationCtlCommonProcctl,
    mallocRevocationCtlCommonProcctl,childReport_answering hpath]
  rfl

theorem checkSkip_answering (ht : t ∈ ctlTests) :
    t.checkSkip (k.answering ctl path answer) = t.checkSkip k := by
  simp only [ctlTests,baselineTests,noteTests,suidProtctlTests,List.cons_append,
    List.nil_append,List.mem_cons,List.not_mem_nil,or_false] at ht
  rcases ht with rfl | rfl | rfl | rfl | rfl | rfl | rfl | rfl | rfl | rfl <;> rfl

theorem CtlTest.RunIn.congr {k' : Kernel} {w : World} (hr : t.RunIn k dir w)
    (hskip : t.checkSkip k' = t.checkSkip k) (hbody : t.body k' dir = t.body k dir) :
    t.RunIn k' dir w :=
  ⟨by rw [hr.checkSkip,hskip],hr.pipeStdin,hr.pipeStdout,hr.fork,hr.fcntl,
    by rw [hr.page,hbody],by rw [hr.waitpid,hbody],hr.stdout⟩

theorem runIn_answering {w : World} (ht : t ∈ ctlTests)
    (h : t.procctlArg = ctl → t.progname ≠ name) :
    t.RunIn (k.answering ctl (helperPath dir name) answer) dir w ↔ t.RunIn k dir w := by
  have hskip : t.checkSkip (k.answering ctl (helperPath dir name) answer) = t.checkSkip k :=
    checkSkip_answering ht
  have hbody : t.body (k.answering ctl (helperPath dir name) answer) dir = t.body k dir :=
    body_answering h
  exact ⟨fun hr => hr.congr hskip.symm hbody.symm,fun hr => hr.congr hskip hbody⟩

/-- A kernel on which one test passes, as its helper answers. -/
def pleasingKernel (t : CtlTest) : Kernel :=
  { bareKernel with
    procctl := fun _ => .ok ()
    execve := fun _ _ => some (mallocRevokeEnabledMain t.shouldBeRevoking) }

theorem runIn_pleasingKernel_lost (h : t.progname = name) :
    ¬ t.RunIn ((pleasingKernel t).answering t.procctlArg (helperPath dir name) none) dir
      (t.world (pleasingKernel t) dir) := by
  intro hr
  have hpass : t.Passes (pleasingKernel t) dir :=
    (passes_of_execve rfl (fun _ => rfl) rfl).mpr rfl
  have hacc := (accepts_iff .freeBSD (t.runIn_world (pleasingKernel t) dir)).mpr hpass
  have hst := hr.waitpid.symm.trans (t.runIn_world (pleasingKernel t) dir).waitpid
  rw [← Option.some.inj hst] at hacc
  have hlost := (accepts_iff .freeBSD hr).mp hacc
  obtain ⟨-,hctl | hexec⟩ := hlost
  · obtain ⟨arg,e,-,he,-⟩ := hctl
    cases he
  · obtain ⟨-,n,hn,-⟩ := hexec
    simp [Kernel.answering,h] at hn

/-- The tests see what the kernel does in a configuration exactly where one of them names it.
Two of the tests with a setuid helper in their description exec the one without the bit, so
that nothing sees what a note does to a setuid program that inherits no setting. -/
theorem configuration_seen_iff (dir name : CString) (ctl : Option RevokeCtl) :
    ((∀ t ∈ ctlTests, ∀ k answer w,
        t.RunIn (k.answering ctl (helperPath dir name) answer) dir w ↔ t.RunIn k dir w) ↔
      ∀ t ∈ ctlTests, t.procctlArg = ctl → t.progname ≠ name) ∧
    ∀ t ∈ ctlTests, t.procctlArg = none →
      t.progname ≠ cstr "malloc_revoke_enabled_suid_elfnote_disable" ∧
        t.progname ≠ cstr "malloc_revoke_enabled_suid_elfnote_enable" := by
  refine ⟨⟨fun hsame t ht hctl hname => ?_,fun hnot t ht k answer w => ?_⟩,by decide +kernel⟩
  · subst hctl
    exact runIn_pleasingKernel_lost hname ((hsame t ht (pleasingKernel t) none _).mpr
      (t.runIn_world (pleasingKernel t) dir))
  · exact runIn_answering ht (hnot t ht)

end Seen

end CheriOsTest.RevocationCtl
