import Mathlib
set_option autoImplicit false

/-! Programs over a system that is known only through a view of its states. -/

namespace CheriOsTest.Views

variable {ε σ ν α β ι : Type}

/-- From every state of view `v` the program yields `a` and leaves a state of view `v'`. -/
def Leads (view : σ → ν) (x : EStateM ε σ α) (v : ν) (a : α) (v' : ν) : Prop :=
  ∀ s, view s = v → ∃ s', x.run s = .ok a s' ∧ view s' = v'

variable {view : σ → ν} {v v' v'' : ν} {a : α} {b : β}

theorem Leads.pure (view : σ → ν) (v : ν) (a : α) : Leads view (pure a : EStateM ε σ α) v a v :=
  fun s hs => ⟨s,rfl,hs⟩

theorem Leads.bind {x : EStateM ε σ α} {k : α → EStateM ε σ β} (hx : Leads view x v a v')
    (hk : Leads view (k a) v' b v'') : Leads view (x >>= k) v b v'' := by
  intro s hs
  obtain ⟨t,ht,hv⟩ := hx s hs
  obtain ⟨u,hu,hv'⟩ := hk t hv
  refine ⟨u,?_,hv'⟩
  simp only [EStateM.run] at ht hu ⊢
  simp [Bind.bind,EStateM.bind,ht,hu]

theorem Leads.call {f : σ → α × σ} (h : ∀ s, view s = v → ∃ s', f s = (a,s') ∧ view s' = v') :
    Leads view (modifyGet f : EStateM ε σ α) v a v' := by
  intro s hs
  obtain ⟨s',hf,hv⟩ := h s hs
  refine ⟨s',?_,hv⟩
  simp [EStateM.run,modifyGet,MonadStateOf.modifyGet,EStateM.modifyGet,hf]

/-- Steps that each keep the view keep it one after the other. -/
theorem Leads.forM {is : List ι} {f : ι → EStateM ε σ Unit}
    (h : ∀ i ∈ is, Leads view (f i) v () v) : Leads view (is.forM f) v () v := by
  induction is with
  | nil => exact Leads.pure view v ()
  | cons i is ih =>
    simp only [List.forall_mem_cons] at h
    exact h.1.bind (ih h.2)

theorem Leads.after {x : EStateM ε σ α} {k : α → EStateM ε σ β} {s t : σ}
    (hx : x.run s = .ok a t) (hk : Leads view (k a) (view t) b v) :
    ∃ s', (x >>= k).run s = .ok b s' ∧ view s' = v := by
  obtain ⟨u,hu,hv⟩ := hk t rfl
  refine ⟨u,?_,hv⟩
  simp only [EStateM.run] at hx hu ⊢
  simp [Bind.bind,EStateM.bind,hx,hu]

theorem run_bind_error {x : EStateM ε σ α} {k : α → EStateM ε σ β} {s t : σ} {e : ε}
    (hx : x.run s = .error e t) : (x >>= k).run s = .error e t := by
  simp only [EStateM.run] at hx ⊢
  simp [Bind.bind,EStateM.bind,hx]

end CheriOsTest.Views
