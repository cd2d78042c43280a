import CheriOsTest.Programs
set_option autoImplicit false
set_option mvcgen.warning false

/-! Programs that call a system, keep a log of what they have seen of it, and may leave. -/

namespace CheriOsTest.LoggedCalls
open CheriOsTest.Programs Std.Do

/-- The state of the system, and the log with its latest entry last. -/
structure Run (σ η : Type) where
  state : σ
  log : List η

abbrev Program (ε σ η : Type) := EStateM ε (Run σ η)

variable {ε δ σ η α : Type}

/-- A call, and the entry it leaves; the entry may name the states before and after it. -/
def call (f : σ → α × σ) (entry : σ → α → σ → η) : Program ε σ η α := do
  let r ← get
  let (a,s) := f r.state
  set (⟨s,r.log ++ [entry r.state a s]⟩ : Run σ η)
  pure a

def orLeave (wrap : δ → ε) : Except δ α → Program ε σ η α
  | .ok a => pure a
  | .error e => throw (wrap e)

theorem orLeave_failIf (wrap : δ → ε) (c : Prop) [Decidable c] (e : δ) :
    (orLeave wrap (failIf c e) : Program ε σ η Unit) = if c then throw (wrap e) else pure () := by
  by_cases h : c
  · rw [failIf,if_pos h,if_pos h,orLeave]
  · rw [failIf,if_neg h,if_neg h,orLeave]

@[simp]
theorem run_call (f : σ → α × σ) (entry : σ → α → σ → η) (r : Run σ η) :
    (call f entry : Program ε σ η α).run r =
      .ok (f r.state).1 ⟨(f r.state).2,r.log ++ [entry r.state (f r.state).1 (f r.state).2]⟩ := rfl

@[spec]
theorem call_spec (f : σ → α × σ) (entry : σ → α → σ → η)
    {Q : PostCond α (.except ε (.arg (Run σ η) .pure))} :
    ⦃fun r => Q.1 (f r.state).1 ⟨(f r.state).2,r.log ++ [entry r.state (f r.state).1 (f r.state).2]⟩⦄
      (call f entry : Program ε σ η α) ⦃Q⦄ := by
  mvcgen [call]

theorem one_after_other {a b : η} {log log' : List η} (ha : a ∈ log) (hb : b ∈ log') :
    [a,b].Sublist (log ++ log') :=
  (List.singleton_sublist.mpr ha).append (List.singleton_sublist.mpr hb)

/-- What a triple says of one run. -/
theorem ends_of_triple {x : Program ε σ η α} {P : Run σ η → Prop} {Q : α → Run σ η → Prop}
    {E : ε → Run σ η → Prop}
    (h : ⦃fun r => ⌜P r⌝⦄ x ⦃post⟨fun a r => ⌜Q a r⌝,fun e r => ⌜E e r⌝⟩⦄)
    {r : Run σ η} (hr : P r) :
    (∃ a r', x.run r = .ok a r' ∧ Q a r') ∨ ∃ e r', x.run r = .error e r' ∧ E e r' := by
  have hx := Triple.iff.mp h r hr
  simp only [wp,PredTrans.apply] at hx
  cases hrun : x.run r with
  | ok a r' =>
    rw [hrun] at hx
    exact .inl ⟨a,r',rfl,hx⟩
  | error e r' =>
    rw [hrun] at hx
    exact .inr ⟨e,r',rfl,hx⟩

end CheriOsTest.LoggedCalls
