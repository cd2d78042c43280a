import CheriOsTest.Programs
set_option autoImplicit false

/-! Processes that make blocking calls on shared pipes. A process is the list of the
calls it has still to make; a schedule picks the process that moves next. -/

namespace CheriOsTest.PipeProcesses
open CheriOsTest.Programs

inductive PipeEnd (π : Type) where
  | reader : π → PipeEnd π
  | writer : π → PipeEnd π
  deriving DecidableEq

inductive Syscall (ρ π : Type) where
  | write : π → List UInt8 → Syscall ρ π
  | read : π → Nat → Syscall ρ π
  | close : PipeEnd π → Syscall ρ π
  | setNonblock : π → Syscall ρ π
  | fork : ρ → List (Syscall ρ π) → Syscall ρ π
  | waitpid : ρ → Syscall ρ π

/-- The number of steps that calls may take, those of the processes they fork included. -/
def work {ρ π : Type} : List (Syscall ρ π) → Nat
  | [] => 0
  | .write _ bs :: rest => bs.length+1+work rest
  | .fork _ calls :: rest => work calls+1+work rest
  | _ :: rest => 1+work rest

structure Pipe (cap : Nat) where
  bytes : List UInt8
  fits : bytes.length ≤ cap
  nonblock : Bool

namespace Pipe

variable {cap : Nat}

def empty : Pipe cap := ⟨[],Nat.zero_le cap,false⟩

def push (p : Pipe cap) (b : UInt8) : Option (Pipe cap) :=
  if h : p.bytes.length < cap then
    some { p with
      bytes := p.bytes ++ [b]
      fits := by rw [List.length_append]; exact h }
  else none

def drop (p : Pipe cap) (n : Nat) : Pipe cap :=
  { p with
    bytes := p.bytes.drop n
    fits := by rw [List.length_drop]; exact Nat.le_trans (Nat.sub_le _ _) p.fits }

theorem push_eq_some {p q : Pipe cap} {b : UInt8} :
    p.push b = some q ↔ p.bytes.length < cap ∧ q.bytes = p.bytes ++ [b] ∧
      q.nonblock = p.nonblock := by
  cases q
  unfold push
  split
  case isTrue h => simp [h,eq_comm]
  case isFalse h => simp [h]

theorem push_eq_none {p : Pipe cap} {b : UInt8} : p.push b = none ↔ cap ≤ p.bytes.length := by
  simp [push]

end Pipe

/-- A process that has ended, or has not started yet, has no calls left. -/
structure Process (ρ π : Type) where
  calls : List (Syscall ρ π)
  fds : Finset (PipeEnd π)

structure System (ρ π : Type) (cap : π → Nat) where
  process : ρ → Process ρ π
  pipe : (k : π) → Pipe (cap k)

namespace System

section Updates

variable {ρ π : Type} {cap : π → Nat}

/-- Some process that has not ended holds the end. -/
def Open (s : System ρ π cap) (e : PipeEnd π) : Prop :=
  ∃ p, (s.process p).calls ≠ [] ∧ e ∈ (s.process p).fds

instance [Fintype ρ] [DecidableEq π] (s : System ρ π cap) (e : PipeEnd π) : Decidable (s.Open e) :=
  inferInstanceAs (Decidable (∃ _, _ ∧ _))

def setPipe [DecidableEq π] (s : System ρ π cap) (k : π) (q : Pipe (cap k)) : System ρ π cap :=
  { s with pipe := Function.update s.pipe k q }

section

variable [DecidableEq π] {s : System ρ π cap} {k l : π} {b : Pipe (cap k)}

@[simp] theorem process_setPipe : (s.setPipe k b).process = s.process := rfl

@[simp] theorem pipe_setPipe_same : (s.setPipe k b).pipe k = b := Function.update_self ..

@[simp] theorem pipe_setPipe_ne (h : l ≠ k) : (s.setPipe k b).pipe l = s.pipe l :=
  Function.update_of_ne h ..

end

variable [DecidableEq ρ]

def start (s : System ρ π cap) (p : ρ) (q : Process ρ π) : System ρ π cap :=
  { s with process := Function.update s.process p q }

def proceed (s : System ρ π cap) (p : ρ) (calls : List (Syscall ρ π)) : System ρ π cap :=
  s.start p ⟨calls,(s.process p).fds⟩

variable {s : System ρ π cap} {p r : ρ} {q : Process ρ π} {calls : List (Syscall ρ π)}

@[simp] theorem process_start_same : (s.start p q).process p = q := Function.update_self ..

@[simp] theorem process_start_ne (h : r ≠ p) : (s.start p q).process r = s.process r :=
  Function.update_of_ne h ..

@[simp] theorem process_proceed_same :
    (s.proceed p calls).process p = ⟨calls,(s.process p).fds⟩ := process_start_same

@[simp] theorem process_proceed_ne (h : r ≠ p) : (s.proceed p calls).process r = s.process r :=
  process_start_ne h

@[simp] theorem pipe_start : (s.start p q).pipe = s.pipe := rfl

@[simp] theorem pipe_proceed : (s.proceed p calls).pipe = s.pipe := rfl

variable [Fintype ρ]

def totalWork (s : System ρ π cap) : Nat := ∑ p, work (s.process p).calls

theorem totalWork_start (s : System ρ π cap) (p : ρ) (q : Process ρ π) :
    (s.start p q).totalWork+work (s.process p).calls = s.totalWork+work q.calls := by
  have hs : ∀ r, work ((s.start p q).process r).calls =
      Function.update (fun r => work (s.process r).calls) p (work q.calls) r := by
    intro r
    by_cases hr : r = p
    · subst hr
      simp [start]
    · simp [start,hr]
  have hsum := Finset.sum_update_of_mem (Finset.mem_univ p) (fun r => work (s.process r).calls)
    (work q.calls)
  have hsplit := Finset.sum_eq_sum_sdiff_singleton_add (Finset.mem_univ p)
    (fun r => work (s.process r).calls)
  rw [totalWork,totalWork,Finset.sum_congr rfl (fun r _ => hs r),hsum,hsplit]
  omega

theorem totalWork_lt {s : System ρ π cap} {p : ρ} {q : Process ρ π}
    (h : work q.calls < work (s.process p).calls) : (s.start p q).totalWork < s.totalWork := by
  have hsum := totalWork_start s p q
  omega

theorem totalWork_fork {s : System ρ π cap} {p q : ρ} {calls rest : List (Syscall ρ π)}
    (hp : (s.process p).calls = .fork q calls :: rest) (hq : (s.process q).calls = []) :
    ((s.proceed p rest).start q ⟨calls,(s.process p).fds⟩).totalWork < s.totalWork := by
  have hne : q ≠ p := by
    intro h
    rw [h,hp] at hq
    cases hq
  have hother : ((s.proceed p rest).process q).calls = [] := by
    simp only [proceed,start,Function.update_of_ne hne,hq]
  have hstart := totalWork_start (s.proceed p rest) q ⟨calls,(s.process p).fds⟩
  have hproceed := totalWork_start s p ⟨rest,(s.process p).fds⟩
  simp only [hother,hp,work] at hstart hproceed
  rw [proceed] at hstart ⊢
  omega

end Updates

variable {ρ π : Type} [DecidableEq ρ] [DecidableEq π] [Fintype ρ] {cap : π → Nat}

/-- The next step of process `p`; a process that is blocked, or has ended, has none. -/
def step (s : System ρ π cap) (p : ρ) : Option (System ρ π cap) :=
  match (s.process p).calls with
  | [] => none
  | .write _ [] :: rest => some (s.proceed p rest)
  | .write k (b :: bs) :: rest =>
    if s.Open (.reader k) then
      ((s.pipe k).push b).map (fun q => (s.setPipe k q).proceed p (.write k bs :: rest))
    else some (s.proceed p [])  -- SIGPIPE
  | .read k n :: rest =>
    if n ≠ 0 ∧ (s.pipe k).bytes = [] ∧ ¬ (s.pipe k).nonblock ∧ s.Open (.writer k) then none
    else some ((s.setPipe k ((s.pipe k).drop n)).proceed p rest)
  | .close e :: rest => some (s.start p ⟨rest,(s.process p).fds.erase e⟩)
  | .setNonblock k :: rest =>
    some ((s.setPipe k { s.pipe k with nonblock := true }).proceed p rest)
  | .fork q calls :: rest =>
    -- an id that is still in use makes the fork fail, and its caller exits
    if (s.process q).calls = [] then
      some ((s.proceed p rest).start q ⟨calls,(s.process p).fds⟩)
    else some (s.proceed p [])
  | .waitpid q :: rest => if (s.process q).calls = [] then some (s.proceed p rest) else none

def Runs (s₀ s : System ρ π cap) : Prop := Reached step (fun _ _ => True) s₀ s

/-- Somebody is not done and nobody can move. -/
def Deadlocked (s : System ρ π cap) : Prop :=
  (∃ p, (s.process p).calls ≠ []) ∧ ∀ p, s.step p = none

/-- Every step uses up work. -/
theorem totalWork_step {s s' : System ρ π cap} {p : ρ} (h : s.step p = some s') :
    s'.totalWork < s.totalWork := by
  have hproceed : ∀ (t : System ρ π cap) (calls : List (Syscall ρ π)), t.process = s.process →
      work calls < work (s.process p).calls → (t.proceed p calls).totalWork < s.totalWork := by
    intro t calls ht hw
    have hlt : (t.proceed p calls).totalWork < t.totalWork := totalWork_lt (by rw [ht]; exact hw)
    have heq : t.totalWork = s.totalWork := by rw [totalWork,totalWork,ht]
    omega
  cases hc : (s.process p).calls with
  | nil =>
    simp only [step,hc] at h
    cases h
  | cons c rest =>
    rw [hc] at hproceed
    cases c with
    | write k bs =>
      cases bs with
      | nil =>
        simp only [step,hc,Option.some.injEq] at h
        exact h ▸ hproceed s rest rfl (by simp [work])
      | cons b bs =>
        simp only [step,hc] at h
        split_ifs at h
        · obtain ⟨q,-,h⟩ := Option.map_eq_some_iff.mp h
          exact h ▸ hproceed _ _ rfl (by simp [work])
        · cases h
          exact hproceed s [] rfl (by simp [work])
    | read k n =>
      simp only [step,hc] at h
      split_ifs at h
      cases h
      exact hproceed _ rest rfl (by simp [work])
    | close e =>
      simp only [step,hc,Option.some.injEq] at h
      exact h ▸ totalWork_lt (by simp [hc,work])
    | setNonblock k =>
      simp only [step,hc,Option.some.injEq] at h
      exact h ▸ hproceed _ rest rfl (by simp [work])
    | fork q calls =>
      simp only [step,hc] at h
      split_ifs at h with hq
      · cases h
        exact totalWork_fork hc hq
      · cases h
        exact hproceed s [] rfl (by simp [work])
    | waitpid q =>
      simp only [step,hc] at h
      split_ifs at h
      cases h
      exact hproceed s rest rfl (by simp [work])

theorem Runs.exists_terminal {s₀ s : System ρ π cap} (h : Runs s₀ s) :
    ∃ s', Runs s₀ s' ∧ ∀ p, s'.step p = none :=
  Reached.exists_terminal totalWork (fun _ _ _ hs => totalWork_step hs) h

end System

end CheriOsTest.PipeProcesses
