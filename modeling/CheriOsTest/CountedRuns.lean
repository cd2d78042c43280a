import Mathlib
set_option autoImplicit false

/-! Runs of a machine whose steps have a cost. A machine stops where it has no step. -/

namespace CheriOsTest.CountedRuns

variable {σ : Type}

/-- A run of total cost `k` from one state to another. -/
inductive Run (step : σ → Option σ) (cost : σ → Nat) : Nat → σ → σ → Prop where
  | refl (s : σ) : Run step cost 0 s s
  | cons {k : Nat} {s t u : σ} : step s = some t → Run step cost k t u →
      Run step cost (cost s+k) s u

namespace Run

variable {step : σ → Option σ} {cost : σ → Nat} {k l : Nat} {s t u : σ}

theorem one (h : step s = some t) : Run step cost (cost s) s t := .cons h (.refl t)

theorem trans (h : Run step cost k s t) (h' : Run step cost l t u) :
    Run step cost (k+l) s u := by
  induction h with
  | refl => rwa [Nat.zero_add]
  | cons hs _ ih =>
    rw [Nat.add_assoc]
    exact .cons hs (ih h')

end Run

end CheriOsTest.CountedRuns
