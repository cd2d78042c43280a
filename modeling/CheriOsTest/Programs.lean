import Mathlib
set_option autoImplicit false

/-! Programs that can leave early, and runs of them. A program step either
yields the next state or ends the run; a run folds the step over its inputs. -/

namespace CheriOsTest.Programs

variable {ε α β σ ι : Type}

theorem bind_eq_ok (x : Except ε α) (k : α → Except ε β) (b : β) :
    (x >>= k) = .ok b ↔ ∃ a, x = .ok a ∧ k a = .ok b := by
  cases x <;> simp [bind,Except.bind]

theorem bind_eq_error (x : Except ε α) (k : α → Except ε β) (e : ε) :
    (x >>= k) = .error e ↔ x = .error e ∨ ∃ a, x = .ok a ∧ k a = .error e := by
  cases x <;> simp [bind,Except.bind]

theorem bind_unit_eq_ok (x : Except ε Unit) (k : Unit → Except ε β) (b : β) :
    (x >>= k) = .ok b ↔ x = .ok () ∧ k () = .ok b := by
  cases x <;> simp [bind,Except.bind]

theorem unit_eq_error_iff {x : Except ε Unit} : (∃ e, x = .error e) ↔ x ≠ .ok () := by
  cases x <;> simp

/-- Leave with `e` when the test fires. -/
def failIf (c : Prop) [Decidable c] (e : ε) : Except ε Unit :=
  if c then .error e else .ok ()

theorem failIf_eq_ok (c : Prop) [Decidable c] (e : ε) (u : Unit) :
    failIf c e = .ok u ↔ ¬ c := by
  by_cases h : c <;> simp [failIf,h]

theorem failIf_eq_error (c : Prop) [Decidable c] (e e' : ε) :
    failIf c e = .error e' ↔ c ∧ e = e' := by
  by_cases h : c <;> simp [failIf,h]

theorem failIf_bind_eq_ok (c : Prop) [Decidable c] (e : ε) (k : Unit → Except ε β) (b : β) :
    (failIf c e >>= k) = .ok b ↔ ¬ c ∧ k () = .ok b := by
  by_cases h : c <;> simp [failIf,h,bind,Except.bind]

theorem failIf_bind_eq_error (c : Prop) [Decidable c] (e e' : ε) (k : Unit → Except ε β) :
    (failIf c e >>= k) = .error e' ↔ (c ∧ e = e') ∨ (¬ c ∧ k () = .error e') := by
  by_cases h : c <;> simp [failIf,h,bind,Except.bind]

theorem foldlM_invariant {step : σ → ι → Except ε σ} (I : σ → Prop)
    (hstep : ∀ s i s', I s → step s i = .ok s' → I s')
    {s s' : σ} {is : List ι} (hs : I s) (h : is.foldlM step s = .ok s') : I s' := by
  induction is generalizing s with
  | nil => cases h; exact hs
  | cons i is ih =>
    rw [List.foldlM_cons,bind_eq_ok] at h
    obtain ⟨t,ht,h⟩ := h
    exact ih (hstep s i t hs ht) h

theorem foldlM_range {step : σ → Nat → Except ε σ} (I : Nat → σ → Prop) (n : Nat)
    (hstep : ∀ i s, i < n → I i s → ∃ s', step s i = .ok s' ∧ I (i+1) s')
    {s : σ} (hs : I 0 s) : ∃ s', (List.range n).foldlM step s = .ok s' ∧ I n s' := by
  induction n with
  | zero => exact ⟨s,rfl,hs⟩
  | succ n ih =>
    obtain ⟨t,ht,hI⟩ := ih (fun i s hi => hstep i s (by omega))
    obtain ⟨s',hs',hI'⟩ := hstep n t (by omega) hI
    refine ⟨s',?_,hI'⟩
    rw [List.range_succ,List.foldlM_append,ht]
    change (List.foldlM step t [n]) = .ok s'
    rw [List.foldlM_cons,hs']
    rfl

theorem forM_eq_ok_iff {is : List ι} {f : ι → Except ε Unit} :
    is.forM f = .ok () ↔ ∀ i ∈ is, f i = .ok () := by
  induction is with
  | nil => exact ⟨fun _ i hi => absurd hi List.not_mem_nil,fun _ => rfl⟩
  | cons i is ih =>
    rw [List.forM,bind_unit_eq_ok,ih,List.forall_mem_cons]

theorem forM_eq_ok {is : List ι} {f : ι → Except ε Unit} (h : ∀ i ∈ is, f i = .ok ()) :
    is.forM f = .ok () :=
  forM_eq_ok_iff.mpr h

theorem mem_of_mapM {f : ι → Except ε β} {is : List ι} {bs : List β}
    (h : is.mapM f = .ok bs) : ∀ i ∈ is, ∃ b ∈ bs, f i = .ok b := by
  induction is generalizing bs with
  | nil => exact fun i hi => absurd hi List.not_mem_nil
  | cons i is ih =>
    simp only [List.mapM_cons,bind_eq_ok,pure,Except.pure,Except.ok.injEq] at h
    obtain ⟨b,hb,bs',hbs,rfl⟩ := h
    intro j hj
    rcases List.mem_cons.mp hj with rfl | hj
    · exact ⟨b,List.mem_cons_self,hb⟩
    · obtain ⟨b',hm,hf⟩ := ih hbs j hj
      exact ⟨b',List.mem_cons_of_mem b hm,hf⟩

/-- A loop of tests with one way out takes it exactly when a test fires. -/
theorem forM_failIf_eq_error {is : List ι} {c : ι → Prop} [DecidablePred c] {e : ε} :
    (is.forM fun i => failIf (c i) e) = .error e ↔ ∃ i ∈ is, c i := by
  induction is with
  | nil =>
    constructor
    · intro h
      cases h
    · rintro ⟨i,hi,-⟩
      exact absurd hi List.not_mem_nil
  | cons i is ih =>
    rw [List.forM,failIf_bind_eq_error,ih,List.exists_mem_cons_iff]
    by_cases hc : c i <;> simp [hc]

/-- The states that a system reaches from `s₀` when each of its steps is `ok`. -/
inductive Reached (step : σ → ι → Option σ) (ok : σ → ι → Prop) (s₀ : σ) : σ → Prop where
  | start : Reached step ok s₀ s₀
  | next {s s' : σ} {i : ι} : Reached step ok s₀ s → ok s i → step s i = some s' →
      Reached step ok s₀ s'

theorem Reached.invariant {step : σ → ι → Option σ} {ok : σ → ι → Prop} {s₀ s : σ}
    (I : σ → Prop) (h₀ : I s₀)
    (hstep : ∀ s i s', I s → ok s i → step s i = some s' → I s')
    (h : Reached step ok s₀ s) : I s := by
  induction h with
  | start => exact h₀
  | next _ hok hs ih => exact hstep _ _ _ ih hok hs

/-- Where every step makes a measure smaller, every state leads to one without a step. -/
theorem Reached.exists_terminal {step : σ → ι → Option σ} {s₀ s : σ} (m : σ → Nat)
    (hm : ∀ s i s', step s i = some s' → m s' < m s)
    (h : Reached step (fun _ _ => True) s₀ s) :
    ∃ s', Reached step (fun _ _ => True) s₀ s' ∧ ∀ i, step s' i = none := by
  induction hn : m s using Nat.strongRecOn generalizing s with
  | ind n ih =>
    by_cases hstop : ∀ i, step s i = none
    · exact ⟨s,h,hstop⟩
    · push Not at hstop
      obtain ⟨i,hi⟩ := hstop
      obtain ⟨s',hs'⟩ := Option.ne_none_iff_exists'.mp hi
      exact ih (m s') (hn ▸ hm s i s' hs') (.next h trivial hs') rfl

/-- A run is reached by its inputs where each of them is `ok` in every state. -/
theorem Reached.of_foldlM_ok {step : σ → ι → Option σ} {ok : σ → ι → Prop} {s₀ s s' : σ}
    (is : List ι) (hok : ∀ i ∈ is, ∀ s, ok s i) (hs : Reached step ok s₀ s)
    (h : is.foldlM step s = some s') : Reached step ok s₀ s' := by
  induction is generalizing s with
  | nil => cases h; exact hs
  | cons i is ih =>
    rw [List.forall_mem_cons] at hok
    rw [List.foldlM_cons,Option.bind_eq_bind,Option.bind_eq_some_iff] at h
    obtain ⟨t,ht,h⟩ := h
    exact ih hok.2 (.next hs (hok.1 s) ht) h

theorem Reached.of_foldlM {step : σ → ι → Option σ} {s₀ s s' : σ} (is : List ι)
    (hs : Reached step (fun _ _ => True) s₀ s) (h : is.foldlM step s = some s') :
    Reached step (fun _ _ => True) s₀ s' :=
  .of_foldlM_ok is (fun _ _ _ => trivial) hs h

/-- A run is bounded where every step but for its credit makes a measure smaller. -/
theorem length_le_of_credit {step : σ → ι → Option σ} (I : σ → Prop) (m : σ → Nat)
    (credit : ι → Nat) (hI : ∀ s i s', I s → step s i = some s' → I s')
    (hm : ∀ s i s', I s → step s i = some s' → m s' + 1 ≤ m s + credit i)
    {s s' : σ} (is : List ι) (hs : I s) (h : is.foldlM step s = some s') :
    m s' + is.length ≤ m s + (is.map credit).sum := by
  induction is generalizing s with
  | nil =>
    cases h
    simp
  | cons i is ih =>
    rw [List.foldlM_cons,Option.bind_eq_bind,Option.bind_eq_some_iff] at h
    obtain ⟨t,ht,h⟩ := h
    have hstep := hm s i t hs ht
    have hrest := ih (hI s i t hs ht) h
    simp only [List.length_cons,List.map_cons,List.sum_cons]
    omega

end CheriOsTest.Programs
