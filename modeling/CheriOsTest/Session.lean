import CheriOsTest.Counters
set_option autoImplicit false

/-! A whole run of the harness: the selection of tests in `main`, one call of
`cheriostest_run_test` after the other, and the exit status at the end. -/

namespace CheriOsTest.Harness
open CheriOsTest.CStrings CheriOsTest.Programs

/-- What a run finds outside the harness. The world and the stack garbage are
given for each call by its number. -/
structure Environment where
  lc : Libc
  os : OS
  options : Options
  fnmatch : CString → CString → Int
  world : Nat → World
  locals : Nat → Locals

/-- One call of `cheriostest_run_test` that has returned. -/
structure Call where
  test : CheriTest
  world : World
  locals : Locals
  verdict : Verdict
  before : Globals
  after : Globals

/-- The globals of the harness, with a record of the calls made so far. -/
structure Session where
  globals : Globals
  calls : List Call

def Session.start : Session := ⟨.initial,[]⟩

def Session.record (env : Environment) (s : Session) (ct : CheriTest) (r : Verdict × Globals) :
    Session :=
  ⟨r.2,s.calls ++ [⟨ct,env.world s.calls.length,env.locals s.calls.length,r.1,s.globals,r.2⟩]⟩

def call (env : Environment) (s : Session) (ct : CheriTest) : Except Nat Session := do
  let r ← runTest env.lc env.os env.options ct (env.world s.calls.length)
    (env.locals s.calls.length) s.globals
  .ok (s.record env ct r)

inductive Selection where
  | all
  | globs (argv : List CString)
  | names (argv : List CString)

def runTestName (env : Environment) (registry : List CheriTest) (s : Session) (name : CString) :
    Except Nat Session :=
  match registry.find? (fun ct => streq name ct.ctName) with
  | some ct => call env s ct
  | none => .error EX_USAGE

def runGlob (env : Environment) (registry : List CheriTest) (s : Session) (glob : CString) :
    Except Nat Session :=
  registry.foldlM (fun s ct =>
    if env.fnmatch glob ct.ctName ≠ 0 then .ok s else call env s ct) s

/-- The selection loops of `main`. -/
def runSelection (env : Environment) (registry : List CheriTest) (s : Session) :
    Selection → Except Nat Session
  | .all => registry.foldlM (call env) s
  | .globs argv => argv.foldlM (runGlob env registry) s
  | .names argv => argv.foldlM (runTestName env registry) s

def EX_OK : Int := 0

/-- The status that the parent of a process that calls `exit(code)` sees. -/
def exitStatus (code : Int) : Nat := (code%256).toNat

def mainStatus (g : Globals) : Nat :=
  if 0 < g.testsFailed then exitStatus (-1) else exitStatus EX_OK

theorem mainStatus_ne_zero (g : Globals) : mainStatus g ≠ 0 ↔ 0 < g.testsFailed := by
  rw [mainStatus]
  by_cases h : 0 < g.testsFailed
  · rw [if_pos h]
    exact ⟨fun _ => h,fun _ => by decide⟩
  · rw [if_neg h]
    exact ⟨fun hc => absurd rfl hc,fun hc => absurd hc h⟩

theorem call_eq_ok {env : Environment} {s s' : Session} {ct : CheriTest}
    (h : call env s ct = .ok s') : ∃ v g,
      runTest env.lc env.os env.options ct (env.world s.calls.length)
        (env.locals s.calls.length) s.globals = .ok (v,g) ∧ s' = s.record env ct (v,g) := by
  rw [call,bind_eq_ok] at h
  obtain ⟨r,hr,h⟩ := h
  exact ⟨r.1,r.2,hr,(Except.ok.inj h).symm⟩

/-- The tests that a selection asks for, in order and with repeats. -/
def selected (env : Environment) (registry : List CheriTest) : Selection → List CheriTest
  | .all => registry
  | .globs argv => argv.flatMap (fun glob =>
      registry.filter (fun ct => env.fnmatch glob ct.ctName = 0))
  | .names argv => argv.filterMap (fun name =>
      registry.find? (fun ct => streq name ct.ctName))

theorem runGlob_eq (env : Environment) (registry : List CheriTest) (glob : CString)
    (s : Session) : runGlob env registry s glob =
      (registry.filter (fun ct => env.fnmatch glob ct.ctName = 0)).foldlM (call env) s := by
  rw [runGlob]
  induction registry generalizing s with
  | nil => rfl
  | cons ct registry ih =>
    rw [List.foldlM_cons]
    by_cases h : env.fnmatch glob ct.ctName = 0
    · rw [if_neg (not_not.mpr h),List.filter_cons_of_pos (by simpa using h),List.foldlM_cons]
      exact congrArg _ (funext fun s' => ih s')
    · rw [if_pos h,List.filter_cons_of_neg (by simpa using h)]
      exact ih s

theorem runSelection_eq_ok {env : Environment} {registry : List CheriTest} {sel : Selection}
    {s s' : Session} (h : runSelection env registry s sel = .ok s') :
    (selected env registry sel).foldlM (call env) s = .ok s' := by
  cases sel with
  | all => exact h
  | globs argv =>
    rw [runSelection] at h
    rw [selected]
    induction argv generalizing s with
    | nil => exact h
    | cons glob argv ih =>
      rw [List.foldlM_cons,bind_eq_ok] at h
      obtain ⟨t,ht,h⟩ := h
      rw [runGlob_eq] at ht
      rw [List.flatMap_cons,List.foldlM_append,bind_eq_ok]
      exact ⟨t,ht,ih h⟩
  | names argv =>
    rw [runSelection] at h
    rw [selected]
    induction argv generalizing s with
    | nil => exact h
    | cons name argv ih =>
      rw [List.foldlM_cons,bind_eq_ok] at h
      obtain ⟨t,ht,h⟩ := h
      rw [runTestName] at ht
      cases hf : registry.find? (fun ct => streq name ct.ctName) with
      | none => rw [hf] at ht; cases ht
      | some ct =>
        rw [hf] at ht
        rw [List.filterMap_cons]
        simp only [hf]
        rw [List.foldlM_cons,bind_eq_ok]
        exact ⟨t,ht,ih h⟩

theorem calls_tests {env : Environment} {cts : List CheriTest} {s s' : Session}
    (h : cts.foldlM (call env) s = .ok s') :
    s'.calls.map Call.test = s.calls.map Call.test ++ cts := by
  induction cts generalizing s with
  | nil => cases h; simp
  | cons ct cts ih =>
    rw [List.foldlM_cons,bind_eq_ok] at h
    obtain ⟨t,ht,h⟩ := h
    obtain ⟨v,g,-,rfl⟩ := call_eq_ok ht
    rw [ih h]
    simp [Session.record]

/-- The entry of a list of names was made by the call: it begins with the name of its test. -/
def Entry (e : CString) (c : Call) : Prop := ∃ reason, e = c.test.ctName ++ cstr ": " ++ reason

/-- The counters and the lists are those of the calls made so far. -/
structure Tallied (env : Environment) (s : Session) : Prop where
  counter : ∀ v, v ≠ .filtered →
    s.globals.counter v = (s.calls.filter (fun c => c.verdict = v)).length
  names : ∀ v, v.Listed →
    List.Forall₂ Entry (s.globals.names v) (s.calls.filter (fun c => c.verdict = v))
  each : ∀ c ∈ s.calls, Counts c.test c.verdict c.before c.after
  filtered : ∀ c ∈ s.calls, c.verdict = .filtered ↔ FastFiltered env.options c.test

theorem Tallied.start (env : Environment) : Tallied env .start where
  counter v _ := by cases v <;> rfl
  names v _ := by cases v <;> exact .nil
  each _ h := nomatch h
  filtered _ h := nomatch h

theorem Tallied.call {env : Environment} {s s' : Session} {ct : CheriTest}
    (ht : Tallied env s) (h : call env s ct = .ok s') : Tallied env s' := by
  obtain ⟨v,g,hr,rfl⟩ := call_eq_ok h
  have hc := runTest_counts hr
  constructor
  · intro u hu
    rw [Session.record,List.filter_append,List.length_append,← ht.counter u hu]
    by_cases hv : v = .filtered
    · rw [hc.filtered hv u]
      subst hv
      simp [Ne.symm hu]
    · rw [hc.counter hv u]
      by_cases huv : u = v
      · simp [huv]
      · simp [huv,Ne.symm huv]
  · intro u hu
    rw [Session.record,List.filter_append]
    by_cases huv : u = v
    · subst huv
      obtain ⟨reason,hl⟩ := hc.listed hu
      rw [hl]
      refine List.rel_append (ht.names u hu) ?_
      simp [Entry,nameColon]
    · rw [hc.names u huv]
      simpa [Ne.symm huv] using ht.names u hu
  · intro c hmem
    rcases List.mem_append.mp hmem with hmem | hmem
    · exact ht.each c hmem
    · rw [List.mem_singleton.mp hmem]; exact hc
  · intro c hmem
    rcases List.mem_append.mp hmem with hmem | hmem
    · exact ht.filtered c hmem
    · rw [List.mem_singleton.mp hmem]; exact runTest_filtered_iff hr

theorem length_verdicts (cs : List Call) :
    (cs.filter (fun c => c.verdict ≠ .filtered)).length =
      (cs.filter (fun c => c.verdict = .skip)).length+
      (cs.filter (fun c => c.verdict = .pass)).length+
      (cs.filter (fun c => c.verdict = .fail)).length+
      (cs.filter (fun c => c.verdict = .xfail)).length+
      (cs.filter (fun c => c.verdict = .xpass)).length := by
  induction cs with
  | nil => rfl
  | cons c cs ih =>
    cases hv : c.verdict <;> simp [hv] at ih ⊢ <;> omega

/-- The counters of a whole run add up to the calls that the fast filter let
through, and the lists and the exit status agree with them. -/
theorem verdicts_conserved (env : Environment) (registry : List CheriTest) (sel : Selection)
    (s : Session) (h : runSelection env registry .start sel = .ok s) :
    s.calls.map Call.test = selected env registry sel ∧
    s.globals.testsSkipped+s.globals.testsPassed+s.globals.testsFailed+
        s.globals.testsXfailed+s.globals.testsXpassed =
      (s.calls.filter (fun c => ¬ FastFiltered env.options c.test)).length ∧
    (∀ c ∈ s.calls, ¬ FastFiltered env.options c.test → c.verdict ≠ .filtered ∧
      ∀ u, c.after.counter u = c.before.counter u+if u = c.verdict then 1 else 0) ∧
    (∀ v, v.Listed → (s.globals.names v).length = s.globals.counter v ∧
      List.Forall₂ Entry (s.globals.names v) (s.calls.filter (fun c => c.verdict = v))) ∧
    (mainStatus s.globals ≠ 0 ↔ 0 < s.globals.testsFailed) := by
  have hrun := runSelection_eq_ok h
  have ht : Tallied env s := foldlM_invariant (Tallied env)
    (fun _ _ _ hi hs => Tallied.call hi hs) (Tallied.start env) hrun
  refine ⟨by simpa [Session.start] using calls_tests hrun,?_,?_,?_,mainStatus_ne_zero _⟩
  · have hsame : s.calls.filter (fun c => ¬ FastFiltered env.options c.test) =
        s.calls.filter (fun c => c.verdict ≠ .filtered) := by
      refine List.filter_congr fun c hc => ?_
      simp [ht.filtered c hc]
    rw [hsame,length_verdicts,← ht.counter .skip (by decide),← ht.counter .pass (by decide),
      ← ht.counter .fail (by decide),← ht.counter .xfail (by decide),
      ← ht.counter .xpass (by decide)]
    rfl
  · intro c hc hf
    have hv : c.verdict ≠ .filtered := fun hv => hf ((ht.filtered c hc).mp hv)
    exact ⟨hv,(ht.each c hc).counter hv⟩
  · intro v hv
    have hne : v ≠ .filtered := by
      intro hc
      subst hc
      exact hv.elim
    exact ⟨by rw [(ht.names v hv).length_eq,ht.counter v hne],ht.names v hv⟩

/-- A run in which each call meets the world `w`. -/
def plainEnvironment (w : World) : Environment where
  lc := plainLibc
  os := .freeBSD
  options := ⟨false,0⟩
  fnmatch _ _ := 0
  world _ := w
  locals _ := plainLocals

theorem verdicts_conserved_plain : ∃ s,
    runSelection (plainEnvironment plainWorld) [plainTest,plainXfailTest] .start .all = .ok s ∧
      s.globals.testsSkipped+s.globals.testsPassed+s.globals.testsFailed+
        s.globals.testsXfailed+s.globals.testsXpassed =
      (s.calls.filter (fun c => ¬ FastFiltered ⟨false,0⟩ c.test)).length :=
  ⟨_,rfl,(verdicts_conserved (plainEnvironment plainWorld) [plainTest,plainXfailTest] .all _
    rfl).2.1⟩

def Coherent (g : Globals) : Prop :=
  g.testsRun = g.testsPassed+g.testsFailed+g.testsXfailed+g.testsXpassed ∧
    g.expectedFailures = g.testsXfailed+g.testsXpassed

def Call.CountedAlike (env : Environment) (c : Call) : Prop :=
  Harness.CountedAlike env.os env.options c.test c.world (c.world.waitpid.getD c.locals.status)

/-- How far the counters of a session are from the totals; a call only adds to it. -/
def Balanced (env : Environment) (s : Session) : Prop :=
  ∃ d₁ d₂, s.globals.outcomes = s.globals.testsRun+d₁ ∧
    s.globals.expectedFailures = s.globals.expectedOutcomes+d₂ ∧
    (d₁ = 0 ∧ d₂ = 0 ↔ ∀ c ∈ s.calls, c.CountedAlike env)

theorem Balanced.start (env : Environment) : Balanced env .start :=
  ⟨0,0,rfl,rfl,⟨fun _ _ h => (nomatch h),fun _ => ⟨rfl,rfl⟩⟩⟩

theorem Balanced.call {env : Environment} {s s' : Session} {ct : CheriTest}
    (hb : Balanced env s) (h : call env s ct = .ok s') : Balanced env s' := by
  obtain ⟨v,g,hr,rfl⟩ := call_eq_ok h
  obtain ⟨d₁,d₂,h₁,h₂,hall⟩ := hb
  obtain ⟨e₁,e₂,hm,hone⟩ := runTest_moves hr
  have ht : g.outcomes+s.globals.testsRun = s.globals.outcomes+g.testsRun+e₁ := hm.total
  have he : g.expectedFailures+s.globals.expectedOutcomes =
    s.globals.expectedFailures+g.expectedOutcomes+e₂ := hm.expected
  refine ⟨d₁+e₁,d₂+e₂,?_,?_,?_⟩
  · change g.outcomes = g.testsRun+(d₁+e₁)
    omega
  · change g.expectedFailures = g.expectedOutcomes+(d₂+e₂)
    omega
  · rw [Session.record]
    simp only [List.forall_mem_append,List.forall_mem_singleton,← hall]
    have hone' : e₁ = 0 ∧ e₂ = 0 ↔ Call.CountedAlike env ⟨ct,env.world s.calls.length,
      env.locals s.calls.length,v,s.globals,g⟩ := hone
    rw [← hone']
    omega

/-- At a boundary between two calls the totals agree with the counters exactly
when every call so far has moved them alike. -/
theorem coherent_iff (env : Environment) (cts : List CheriTest) (s : Session)
    (h : cts.foldlM (call env) .start = .ok s) :
    Coherent s.globals ↔ ∀ c ∈ s.calls, c.CountedAlike env := by
  obtain ⟨d₁,d₂,h₁,h₂,hall⟩ : Balanced env s := foldlM_invariant (Balanced env)
    (fun _ _ _ hi hs => Balanced.call hi hs) (Balanced.start env) h
  rw [← hall,Coherent]
  simp only [Globals.outcomes,Globals.expectedOutcomes] at h₁ h₂
  omega

/-- A run whose second test is skipped, and whose last two children report a failure. -/
def mixedEnvironment : Environment where
  lc := plainLibc
  os := .freeBSD
  options := ⟨false,0⟩
  fnmatch _ _ := 0
  world
    | 1 => { plainWorld with checkSkip := some (cstr "no such device") }
    | 3 | 4 => { plainWorld with
      waitpid := some (.exited 70)
      page := { ChildState.zeroed with ccsTestresult := TESTRESULT_FAILURE } }
    | _ => plainWorld
  locals _ := plainLocals

def mixedTests : List CheriTest :=
  [plainTest,{ plainTest with ctCheckSkip := true },plainXfailTest,plainTest,plainXfailTest]

theorem coherent_iff_mixed : ∃ s, mixedTests.foldlM (call mixedEnvironment) .start = .ok s ∧
    s.calls.map Call.verdict = [.pass,.skip,.xpass,.fail,.xfail] ∧
    (Coherent s.globals ↔ ∀ c ∈ s.calls, c.CountedAlike mixedEnvironment) :=
  ⟨_,rfl,rfl,coherent_iff mixedEnvironment mixedTests _ rfl⟩

/-- One call with a disallowed name, then a child that exits with 0 and has said
nothing although its test has an xfail reason: both totals are off. -/
theorem totals_incoherent : ∃ s,
    [{ plainTest with ctName := cstr "test_fault" },plainXfailTest].foldlM
      (call (plainEnvironment { plainWorld with page := .zeroed })) .start = .ok s ∧
    s.globals.testsRun = 1 ∧ s.globals.testsFailed = 2 ∧ s.globals.expectedFailures = 1 ∧
    s.globals.testsXfailed+s.globals.testsXpassed = 0 ∧ ¬ Coherent s.globals := by
  refine ⟨_,rfl,rfl,rfl,rfl,rfl,fun hc => ?_⟩
  exact absurd hc.2 (by decide)

end CheriOsTest.Harness
