import CheriOsTest.Nesting
import CheriOsTest.Session
set_option autoImplicit false

/-! The nesting of the report: the instances that the calls open and close, between the
containers that `main` opens and closes around them. -/

namespace CheriOsTest.Harness
open CheriOsTest.CStrings CheriOsTest.Programs CheriOsTest.Nesting

inductive XoFrame where
  | container : CString → XoFrame
  | list : CString → XoFrame
  | inst : CString → XoFrame
  deriving DecidableEq

def XoCall.bracket : XoCall → Bracket XoFrame
  | .openInstance name => .opened (.inst name)
  | .closeInstance name => .closed (.inst name)

/-- The containers of `main` around what its tests have left. -/
def reportBrackets (g : Globals) : List (Bracket XoFrame) :=
  .opened (.container (cstr "testsuites")) ::
    (.opened (.container (cstr "testsuite")) ::
      (.opened (.list (cstr "test")) :: (g.xo.map XoCall.bracket ++ [.closed (.list (cstr "test"))]) ++
        [.closed (.container (cstr "testsuite"))]) ++ [.closed (.container (cstr "testsuites"))])

/-- All that a call adds to the report is closed again by its end. -/
def Call.Nested (c : Call) : Prop :=
  ∃ xo, c.after.xo = c.before.xo ++ xo ∧ Neutral (xo.map XoCall.bracket)

section Calls

variable {lc : Libc} {os : OS} {o : Options} {t : CheriTest} {w : World} {l : Locals}
  {g : Globals}

theorem xoOpenInstance_xo : g.xoOpenInstance.xo = g.xo ++ [.openInstance (cstr "testcase")] := rfl

theorem xoCloseInstance_xo : g.xoCloseInstance.xo = g.xo ++ [.closeInstance (cstr "testcase")] :=
  rfl

theorem skipped_xo (reason : CString) : (g.skipped t reason).xo = g.xo := rfl

theorem opened_xo (p : Int × Int) : (g.opened p).xo = g.xo := rfl

theorem atChild_xo (i j : Int × Int) :
    (atChild t w i j g).xo = g.xo ++ [.openInstance (cstr "testcase")] := by
  simp only [atChild,Globals.close,Globals.opened,(expect_effects _).xo,xoOpenInstance_xo]

theorem doReturn_xo {r : Verdict × Globals} (stdin1 stdout0 : Int) :
    (doReturn stdin1 stdout0 r).2.xo = r.2.xo ++ [.closeInstance (cstr "testcase")] := rfl

/-- A call opens its instance and closes it, unless the fast filter lets it go. -/
theorem runTest_xo {r : Verdict × Globals} (h : runTest lc os o t w l g = .ok r) :
    r.2.xo = g.xo ++ [.openInstance (cstr "testcase")] ++
      if FastFiltered o t then [] else [.closeInstance (cstr "testcase")] := by
  cases runTest_returns h with
  | disallowed hname =>
    have hno : ¬ FastFiltered o t := by
      intro hc
      rw [hc.1] at hname
      cases hname
    rw [if_neg hno,doReturn_xo,(failTail_effects _ _ _).xo,xoOpenInstance_xo]
  | filtered hname hfast =>
    rw [if_pos ⟨hname,hfast⟩,List.append_nil]
    exact xoOpenInstance_xo
  | skipped _ hfast _ =>
    rw [if_neg (fun hc => hfast hc.2),xoCloseInstance_xo,skipped_xo,xoOpenInstance_xo]
  | noInput _ hfast _ _ =>
    rw [if_neg (fun hc => hfast hc.2),doReturn_xo,(failTail_effects _ _ _).xo,opened_xo,opened_xo,
      (expect_effects _).xo,xoOpenInstance_xo]
  | child _ hfast _ _ =>
    rw [if_neg (fun hc => hfast hc.2),doReturn_xo,(afterChild_effects _).xo,atChild_xo]

theorem nested_iff {r : Verdict × Globals} (h : runTest lc os o t w l g = .ok r) :
    Call.Nested ⟨t,w,l,r.1,g,r.2⟩ ↔ ¬ FastFiltered o t := by
  have hxo := runTest_xo h
  constructor
  · intro hn hf
    obtain ⟨xo,hadd,hbal⟩ := hn
    rw [if_pos hf,List.append_nil] at hxo
    have hxo' : xo = [.openInstance (cstr "testcase")] :=
      List.append_cancel_left (hadd.symm.trans hxo)
    rw [hxo'] at hbal
    exact absurd hbal.depth_eq (by decide)
  · intro hf
    rw [if_neg hf,List.append_assoc] at hxo
    exact ⟨_,hxo,Neutral.nil.wrap _⟩

end Calls

/-- The report of a session: it stands open as often as the fast filter has let a call go. -/
structure Nests (env : Environment) (s : Session) : Prop where
  each : ∀ c ∈ s.calls, c.Nested ↔ ¬ FastFiltered env.options c.test
  height : depth (s.globals.xo.map XoCall.bracket) =
    (s.calls.filter (fun c => FastFiltered env.options c.test)).length
  closed : (∀ c ∈ s.calls, ¬ FastFiltered env.options c.test) →
    Neutral (s.globals.xo.map XoCall.bracket)

theorem Nests.start (env : Environment) : Nests env .start :=
  ⟨fun _ h => (nomatch h),rfl,fun _ => Neutral.nil⟩

theorem Nests.call {env : Environment} {s s' : Session} {ct : CheriTest}
    (hn : Nests env s) (h : call env s ct = .ok s') : Nests env s' := by
  obtain ⟨v,g,hr,rfl⟩ := call_eq_ok h
  have hxo : g.xo = _ := runTest_xo hr
  refine ⟨?_,?_,?_⟩
  · simp only [Session.record,List.forall_mem_append,List.forall_mem_singleton]
    exact ⟨hn.each,nested_iff hr⟩
  · simp only [Session.record,List.filter_append,List.length_append,hxo,List.map_append,depth_append,
      hn.height]
    by_cases hf : FastFiltered env.options ct
    · simp [hf,depth,XoCall.bracket]
    · simp [hf,depth,XoCall.bracket]
  · intro hall
    simp only [Session.record,List.forall_mem_append,List.forall_mem_singleton] at hall ⊢
    rw [hxo,if_neg hall.2,List.append_assoc,List.map_append]
    exact (hn.closed hall.1).append (Neutral.nil.wrap _)

theorem reportBrackets_depth (g : Globals) :
    depth (reportBrackets g) = depth (g.xo.map XoCall.bracket) := by
  simp [reportBrackets,depth]
  omega

/-- Every call closes what it opens, and the report is well nested, exactly when no test of
the run is one that the fast filter lets go. -/
theorem xo_nested_iff (env : Environment) (registry : List CheriTest) (sel : Selection)
    (s : Session) (h : runSelection env registry .start sel = .ok s) :
    ((∀ c ∈ s.calls, c.Nested) ↔
      ∀ t ∈ selected env registry sel, ¬ FastFiltered env.options t) ∧
    (WellNested (reportBrackets s.globals) ↔
      ∀ t ∈ selected env registry sel, ¬ FastFiltered env.options t) := by
  have hrun := runSelection_eq_ok h
  have hn : Nests env s := foldlM_invariant (Nests env)
    (fun _ _ _ hi hs => Nests.call hi hs) (Nests.start env) hrun
  have htests : (∀ t ∈ selected env registry sel, ¬ FastFiltered env.options t) ↔
      ∀ c ∈ s.calls, ¬ FastFiltered env.options c.test := by
    have hmap : s.calls.map Call.test = selected env registry sel := by
      simpa [Session.start] using calls_tests hrun
    rw [← hmap,List.forall_mem_map]
  rw [htests]
  refine ⟨forall₂_congr hn.each,fun hwell c hc hf => ?_,fun hall => ?_⟩
  · have hdepth := hwell.depth_eq
    rw [reportBrackets_depth,hn.height] at hdepth
    rw [Int.natCast_eq_zero,List.length_eq_zero_iff,List.filter_eq_nil_iff] at hdepth
    exact absurd (decide_eq_true hf) (hdepth c hc)
  · exact ((((hn.closed hall).wrap _).wrap _).wrap _).wellNested

theorem xo_nested_mixed : ∃ s, runSelection mixedEnvironment mixedTests .start .all = .ok s ∧
    s.calls.map Call.verdict = [.pass,.skip,.xpass,.fail,.xfail] ∧
    (WellNested (reportBrackets s.globals) ↔ ∀ t ∈ mixedTests, ¬ FastFiltered ⟨false,0⟩ t) :=
  ⟨_,rfl,rfl,(xo_nested_iff mixedEnvironment mixedTests .all _ rfl).2⟩

/-- With `-f`, a slow test leaves its instance open, and the report closes its list over it. -/
theorem xo_left_open : ∃ s,
    runSelection { plainEnvironment plainWorld with options := ⟨true,0⟩ }
      [{ plainTest with ctFlags := CT_FLAG_SLOW }] .start .all = .ok s ∧
    s.globals.xo = [.openInstance (cstr "testcase")] ∧
    ¬ WellNested (reportBrackets s.globals) := by
  refine ⟨_,rfl,rfl,fun h => ?_⟩
  have hdepth := h.depth_eq
  rw [reportBrackets_depth] at hdepth
  exact absurd hdepth (by decide)

end CheriOsTest.Harness
