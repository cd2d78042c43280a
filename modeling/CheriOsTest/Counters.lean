import CheriOsTest.Verdicts
set_option autoImplicit false

/-! What one call does to the counters and to the lists of names. -/

namespace CheriOsTest.Harness
open CheriOsTest.CStrings CheriOsTest.Programs

namespace Globals

/-- The counter that belongs to a verdict; the fast filter has none. -/
def counter (g : Globals) : Verdict → Nat
  | .filtered => 0
  | .skip => g.testsSkipped
  | .pass => g.testsPassed
  | .xpass => g.testsXpassed
  | .fail => g.testsFailed
  | .xfail => g.testsXfailed

/-- The list of names that belongs to a verdict; a plain pass is not listed. -/
def names (g : Globals) : Verdict → List CString
  | .filtered | .pass => []
  | .skip => g.cheriSkippedTests
  | .xpass => g.cheriXpassedTests
  | .fail => g.cheriFailedTests
  | .xfail => g.cheriXfailedTests

theorem expect_eq (g : Globals) (xfail : Option CString) : g.expect xfail =
    { g with expectedFailures := g.expectedFailures+if xfail.isSome then 1 else 0 } := by
  cases xfail <;> rfl

/-- The tests that a verdict other than SKIP was given to. -/
def outcomes (g : Globals) : Nat :=
  g.testsPassed+g.testsFailed+g.testsXfailed+g.testsXpassed

/-- The verdicts that say something of an expected failure. -/
def expectedOutcomes (g : Globals) : Nat := g.testsXfailed+g.testsXpassed

end Globals

def Verdict.Listed : Verdict → Prop
  | .filtered | .pass => False
  | _ => True

/-- The later globals count the verdict `v` once more, and list it if it is listed. -/
structure Counts (t : CheriTest) (v : Verdict) (g g' : Globals) : Prop where
  counter : v ≠ .filtered → ∀ u, g'.counter u = g.counter u+if u = v then 1 else 0
  names : ∀ u, u ≠ v → g'.names u = g.names u
  listed : v.Listed → ∃ reason, g'.names v = g.names v ++ [nameColon t reason]
  filtered : v = .filtered → ∀ u, g'.counter u = g.counter u

/-- The two globals agree on every counter and every list of names. -/
structure SameCounts (g g' : Globals) : Prop where
  counter : ∀ u, g'.counter u = g.counter u
  names : ∀ u, g'.names u = g.names u

theorem SameCounts.trans {g g' g'' : Globals} (h : SameCounts g g') (h' : SameCounts g' g'') :
    SameCounts g g'' :=
  ⟨fun u => (h'.counter u).trans (h.counter u),fun u => (h'.names u).trans (h.names u)⟩

theorem Counts.before {t : CheriTest} {v : Verdict} {g₀ g g' : Globals}
    (h : Counts t v g g') (hs : SameCounts g₀ g) : Counts t v g₀ g' where
  counter hv u := by rw [h.counter hv u,hs.counter u]
  names u hu := by rw [h.names u hu,hs.names u]
  listed hv := by
    obtain ⟨reason,hr⟩ := h.listed hv
    exact ⟨reason,by rw [hr,hs.names v]⟩
  filtered hv u := by rw [h.filtered hv u,hs.counter u]

theorem Counts.after {t : CheriTest} {v : Verdict} {g g' g'' : Globals}
    (h : Counts t v g g') (hs : SameCounts g' g'') : Counts t v g g'' where
  counter hv u := by rw [hs.counter u,h.counter hv u]
  names u hu := by rw [hs.names u,h.names u hu]
  listed hv := by
    obtain ⟨reason,hr⟩ := h.listed hv
    exact ⟨reason,by rw [hs.names v,hr]⟩
  filtered hv u := by rw [hs.counter u,h.filtered hv u]

theorem Counts.of_listed {t : CheriTest} {v : Verdict} {g g' : Globals} {reason : CString}
    (hv : v.Listed) (hc : ∀ u, g'.counter u = g.counter u+if u = v then 1 else 0)
    (hn : ∀ u, u ≠ v → g'.names u = g.names u)
    (hl : g'.names v = g.names v ++ [nameColon t reason]) : Counts t v g g' where
  counter _ := hc
  names := hn
  listed _ := ⟨reason,hl⟩
  filtered h := by subst h; exact hv.elim

section Steps

variable {lc : Libc} {os : OS} {o : Options} {t : CheriTest} {w : World} {l : Locals}
  {g : Globals}

theorem sameCounts_xoOpen : SameCounts g g.xoOpenInstance :=
  ⟨fun u => by cases u <;> rfl,fun u => by cases u <;> rfl⟩

theorem sameCounts_xoClose : SameCounts g g.xoCloseInstance :=
  ⟨fun u => by cases u <;> rfl,fun u => by cases u <;> rfl⟩

theorem sameCounts_opened (p : Int × Int) : SameCounts g (g.opened p) :=
  ⟨fun u => by cases u <;> rfl,fun u => by cases u <;> rfl⟩

theorem sameCounts_close (fd : Int) : SameCounts g (g.close fd) :=
  ⟨fun u => by cases u <;> rfl,fun u => by cases u <;> rfl⟩

theorem sameCounts_expect (xfail : Option CString) : SameCounts g (g.expect xfail) := by
  cases xfail with
  | none => exact ⟨fun _ => rfl,fun _ => rfl⟩
  | some reason => exact ⟨fun u => by cases u <;> rfl,fun u => by cases u <;> rfl⟩

theorem sameCounts_warned (page : ChildState) : SameCounts g (Globals.warned lc g t page) := by
  rw [Globals.warned]
  split_ifs
  · exact ⟨fun u => by cases u <;> rfl,fun u => by cases u <;> rfl⟩
  · exact ⟨fun _ => rfl,fun _ => rfl⟩

theorem sameCounts_doReturn (i j : Int) (r : Verdict × Globals) :
    SameCounts r.2 (doReturn i j r).2 :=
  (sameCounts_xoClose.trans (sameCounts_close i)).trans (sameCounts_close j)

theorem Counts.doReturn {r : Verdict × Globals} (h : Counts t r.1 g r.2) (i j : Int) :
    Counts t (doReturn i j r).1 g (doReturn i j r).2 :=
  h.after (sameCounts_doReturn i j r)

theorem sameCounts_input (xfail : Option CString) (i j : Int × Int) :
    SameCounts g (((g.xoOpenInstance.expect xfail).opened i).opened j) :=
  ((sameCounts_xoOpen.trans (sameCounts_expect xfail)).trans (sameCounts_opened i)).trans
    (sameCounts_opened j)

theorem sameCounts_atChild (i j : Int × Int) : SameCounts g (atChild t w i j g) := by
  have h : SameCounts g _ := ((sameCounts_input (xfailReason t w) i j).trans
    (sameCounts_close i.1)).trans (sameCounts_close j.2)
  exact h.trans ⟨fun u => by cases u <;> rfl,fun u => by cases u <;> rfl⟩

theorem counts_skipped (reason : CString) : Counts t .skip g (g.skipped t reason) :=
  .of_listed trivial (fun u => by cases u <;> rfl)
    (fun u hu => by cases u <;> first | rfl | exact absurd rfl hu) rfl

theorem counts_failTail (reason : CString) (xfail flaky : Option CString) :
    Counts t (failTail lc t reason xfail flaky g).1 g (failTail lc t reason xfail flaky g).2 := by
  rw [failTail]
  by_cases h : xfail.isNone && flaky.isNone
  · rw [if_pos h]
    exact .of_listed trivial (fun u => by cases u <;> rfl)
      (fun u hu => by cases u <;> first | rfl | exact absurd rfl hu) rfl
  · rw [if_neg h]
    exact .of_listed trivial (fun u => by cases u <;> rfl)
      (fun u hu => by cases u <;> first | rfl | exact absurd rfl hu) rfl

theorem counts_passTail (page : ChildState) (xfail : Option CString) :
    Counts t (passTail lc t page xfail g).1 g (passTail lc t page xfail g).2 := by
  cases xfail with
  | some reason =>
    refine Counts.after ?_ (sameCounts_warned page)
    exact .of_listed trivial (fun u => by cases u <;> rfl)
      (fun u hu => by cases u <;> first | rfl | exact absurd rfl hu) rfl
  | none =>
    refine Counts.after ?_ (sameCounts_warned page)
    exact {
      counter := fun _ u => by cases u <;> rfl
      names := fun u _ => by cases u <;> rfl
      listed := fun h => h.elim
      filtered := fun h => nomatch h }

theorem counts_afterChild (status : WaitStatus) :
    Counts t (afterChild lc os o t w status g).1 g (afterChild lc os o t w status g).2 := by
  rcases afterChild_cases lc os o t w status g with ⟨-,he⟩ | ⟨f,-,-,he⟩
  · rw [he]; exact counts_passTail _ _
  · rw [he]; exact counts_failTail _ _ _

/-- Every call counts its verdict once. -/
theorem runTest_counts {r : Verdict × Globals} (h : runTest lc os o t w l g = .ok r) :
    Counts t r.1 g r.2 := by
  cases runTest_returns h with
  | disallowed _ =>
    exact ((counts_failTail _ _ _).before sameCounts_xoOpen).doReturn _ _
  | filtered _ _ =>
    exact {
      counter := fun h => absurd rfl h
      names := fun u _ => by cases u <;> rfl
      listed := fun h => h.elim
      filtered := fun _ u => by cases u <;> rfl }
  | skipped _ _ _ =>
    exact ((counts_skipped _).before sameCounts_xoOpen).after sameCounts_xoClose
  | noInput _ _ _ _ =>
    exact ((counts_failTail _ _ _).before (sameCounts_input _ _ _)).doReturn _ _
  | child _ _ _ _ =>
    exact ((counts_afterChild _).before (sameCounts_atChild _ _)).doReturn _ _

/-- The fast filter removes the call. -/
def FastFiltered (o : Options) (t : CheriTest) : Prop :=
  disallowedPrefix t.ctName = none ∧ o.fastTestsOnly ∧ t.has CT_FLAG_SLOW

instance (o : Options) (t : CheriTest) : Decidable (FastFiltered o t) :=
  inferInstanceAs (Decidable (_ ∧ _ ∧ _))

theorem verdict_eq_filtered {v : Verdict} : v = .filtered ↔ v.outcome = .filtered := by
  cases v <;> simp [Verdict.outcome]

theorem runTest_filtered_iff {r : Verdict × Globals} (h : runTest lc os o t w l g = .ok r) :
    r.1 = .filtered ↔ FastFiltered o t := by
  cases runTest_returns h with
  | disallowed hname =>
    rw [verdict_eq_filtered,doReturn,failTail_rejected]
    simp [FastFiltered,hname]
  | filtered hname hfast => exact ⟨fun _ => ⟨hname,hfast⟩,fun _ => rfl⟩
  | skipped _ hfast _ =>
    have hno : ¬ FastFiltered o t := fun hc => hfast hc.2
    simp [hno]
  | noInput _ hfast _ _ =>
    have hno : ¬ FastFiltered o t := fun hc => hfast hc.2
    rw [verdict_eq_filtered,doReturn,failTail_rejected]
    simp [hno]
  | child _ hfast _ _ =>
    have hno : ¬ FastFiltered o t := fun hc => hfast hc.2
    rw [verdict_eq_filtered,doReturn]
    by_cases ha : Accepts os t w (w.waitpid.getD l.status)
    · rw [(afterChild_outcome lc os o t w _ _).1.mpr ha]
      simp [hno]
    · rw [(afterChild_outcome lc os o t w _ _).2.mpr ha]
      simp [hno]

/-- Of one verdict that expects `xfail`: how far the totals move, and the totals
of expected failures without the count made before the child. -/
structure Moves (xfail : Option CString) (g g' : Globals) (d : Nat) : Prop where
  run : g'.testsRun = g.testsRun
  outcomes : g'.outcomes = g.outcomes+1
  expected : g'.expectedFailures+g.expectedOutcomes+(if xfail.isSome then 1 else 0) =
    g.expectedFailures+g'.expectedOutcomes+d

theorem moves_failTail (lc : Libc) (t : CheriTest) (reason : CString)
    (xfail flaky : Option CString) (g : Globals) :
    Moves xfail g (failTail lc t reason xfail flaky g).2 0 := by
  cases xfail <;> cases flaky <;> constructor <;>
    simp [failTail,Globals.outcomes,Globals.expectedOutcomes] <;> omega

theorem moves_passTail (page : ChildState) (xfail : Option CString) :
    Moves xfail g (passTail lc t page xfail g).2 0 := by
  cases xfail <;> cases hw : page.ccsWarn <;> constructor <;>
    simp [passTail,Globals.warned,hw,Globals.outcomes,Globals.expectedOutcomes] <;> omega

theorem moves_afterChild (lc : Libc) (os : OS) (o : Options) (t : CheriTest) (w : World)
    (status : WaitStatus) (g : Globals) : ∃ d,
    Moves (xfailReason t w) g (afterChild lc os o t w status g).2 d ∧
      (d = 0 ↔ xfailReason t w = none ∨ ¬ HarnessError os t w status) := by
  rcases afterChild_cases lc os o t w status g with ⟨hok,he⟩ | ⟨f,-,hc,he⟩
  · rw [he]
    refine ⟨0,moves_passTail _ _,?_⟩
    have hno : ¬ HarnessError os t w status := by
      intro hh
      rcases hok.2 with ⟨hx,-⟩ | ⟨-,-,hs,-⟩
      · exact hh.1 hx
      · exact hh.2.2.2.2 (hs hh.2.1)
    simp [hno]
  rw [he]
  by_cases hf : f.cleared
  · -- the reasons are gone, so the early count of the xfail reason stays behind
    rw [if_pos hf,if_pos hf]
    have hm : Moves none g (failTail lc t f.reason none none g).2 0 :=
      moves_failTail _ _ _ _ _ _
    refine ⟨if (xfailReason t w).isSome then 1 else 0,⟨hm.run,hm.outcomes,?_⟩,?_⟩
    · have he := hm.expected
      simp only [Option.isSome_none,Bool.false_eq_true,if_false] at he
      omega
    · cases xfailReason t w <;> simp [hc.mp hf]
  · rw [if_neg hf,if_neg hf]
    refine ⟨0,moves_failTail _ _ _ _ _ _,?_⟩
    have hno : ¬ HarnessError os t w status := fun hh => hf (hc.mpr hh)
    simp [hno]

/-- The totals and the counters move alike in this call: its name is allowed, and
unless it is filtered or skipped, its input is written and no early count of an
expected failure is followed by a harness error. -/
def CountedAlike (os : OS) (o : Options) (t : CheriTest) (w : World) (status : WaitStatus) :
    Prop :=
  disallowedPrefix t.ctName = none ∧
    ((o.fastTestsOnly ∧ t.has CT_FLAG_SLOW) ∨ skipReason t w ≠ none ∨
      (StdinWritten t w ∧ (xfailReason t w = none ∨ ¬ HarnessError os t w status)))

/-- How far a call moves the counters away from the totals. -/
structure Moved (g g' : Globals) (d₁ d₂ : Nat) : Prop where
  total : g'.outcomes+g.testsRun = g.outcomes+g'.testsRun+d₁
  expected : g'.expectedFailures+g.expectedOutcomes = g.expectedFailures+g'.expectedOutcomes+d₂

theorem Moved.doReturn {r : Verdict × Globals} {d₁ d₂ : Nat} (h : Moved g r.2 d₁ d₂)
    (i j : Int) : Moved g (doReturn i j r).2 d₁ d₂ :=
  ⟨h.total,h.expected⟩

/-- A verdict on globals that count what `g` counts, the call itself and what it expects apart. -/
theorem Moves.moved {g₀ g' : Globals} {xfail : Option CString} {d₁ d₂ : Nat}
    (h : Moves xfail g₀ g' d₂) (hrun : g₀.testsRun+d₁ = g.testsRun+1)
    (houtcomes : g₀.outcomes = g.outcomes) (hexpected : g₀.expectedOutcomes = g.expectedOutcomes)
    (hfailures : g₀.expectedFailures = g.expectedFailures+if xfail.isSome then 1 else 0) :
    Moved g g' d₁ d₂ := by
  have hr := h.run
  have ho := h.outcomes
  have he := h.expected
  rw [houtcomes] at ho
  rw [hexpected,hfailures] at he
  exact ⟨by omega,by omega⟩

theorem Moves.disallowed {g' : Globals} (h : Moves none g.xoOpenInstance g' 0) :
    Moved g g' 1 0 :=
  h.moved rfl rfl rfl rfl

theorem Moves.noInput {g' : Globals} {xfail : Option CString} {i j : Int × Int} {d : Nat}
    (h : Moves xfail (((g.xoOpenInstance.expect xfail).opened i).opened j) g' d) :
    Moved g g' 1 d := by
  refine h.moved ?_ ?_ ?_ ?_
  all_goals
    simp [Globals.expect_eq,Globals.opened,Globals.xoOpenInstance,Globals.outcomes,
      Globals.expectedOutcomes]

theorem Moves.child {g' : Globals} {i j : Int × Int} {d : Nat}
    (h : Moves (xfailReason t w) (atChild t w i j g) g' d) : Moved g g' 0 d := by
  refine h.moved ?_ ?_ ?_ ?_
  all_goals
    simp [atChild,Globals.expect_eq,Globals.close,Globals.opened,Globals.xoOpenInstance,
      Globals.outcomes,Globals.expectedOutcomes]

theorem runTest_moves {r : Verdict × Globals} (h : runTest lc os o t w l g = .ok r) :
    ∃ d₁ d₂, Moved g r.2 d₁ d₂ ∧
      (d₁ = 0 ∧ d₂ = 0 ↔ CountedAlike os o t w (w.waitpid.getD l.status)) := by
  cases runTest_returns h with
  | disallowed hname =>
    refine ⟨1,0,(moves_failTail lc t _ none l.flakyReason _).disallowed.doReturn _ _,?_⟩
    rw [CountedAlike,hname]
    simp
  | filtered hname hfast =>
    exact ⟨0,0,⟨rfl,rfl⟩,⟨fun _ => ⟨hname,.inl hfast⟩,fun _ => ⟨rfl,rfl⟩⟩⟩
  | skipped hname _ hskip =>
    refine ⟨0,0,⟨rfl,rfl⟩,⟨fun _ => ⟨hname,.inr (.inl ?_)⟩,fun _ => ⟨rfl,rfl⟩⟩⟩
    rw [hskip]
    exact Option.some_ne_none _
  | @noInput i j f _ hfast hskip hwrite =>
    have hm := moves_failTail lc t f.reason (xfailReason t w) t.ctFlakyReason
      (((g.xoOpenInstance.expect (xfailReason t w)).opened i).opened j)
    refine ⟨1,0,hm.noInput.doReturn i.2 j.1,?_⟩
    have hin : ¬ StdinWritten t w := by
      rw [← writeStdin_eq_ok,hwrite]
      exact fun hc => (nomatch hc)
    simp [CountedAlike,hfast,hskip,hin]
  | @child i j hname hfast hskip hwrite =>
    obtain ⟨d,hm,hd⟩ := moves_afterChild lc os o t w (w.waitpid.getD l.status)
      (atChild t w i j g)
    refine ⟨0,d,hm.child.doReturn i.2 j.1,?_⟩
    simp only [CountedAlike,hname,hfast,hskip,writeStdin_eq_ok.mp hwrite,hd]
    simp

end Steps
end CheriOsTest.Harness
