import CheriOsTest.Programs
set_option autoImplicit false

/-! Threads around one mutex and one condition variable. What a thread does next is the
code at its place; a waiting thread gives the mutex up and takes it again when it is woken. -/

namespace CheriOsTest.Monitors
open CheriOsTest.Programs

variable {ι κ σ : Type}

/-- The code at one place of a thread, with the place behind it. -/
inductive Instr (ι κ σ : Type) where
  | access : (σ → κ × σ) → Instr ι κ σ
  | lock : κ → Instr ι κ σ
  | unlock : κ → Instr ι κ σ
  | wait : κ → Instr ι κ σ
  | broadcast : κ → Instr ι κ σ
  | spawn : ι → κ → Instr ι κ σ
  | done : Instr ι κ σ

/-- A woken thread has still to take the mutex. -/
inductive Status where
  | unborn
  | running
  | waiting
  | woken
  deriving DecidableEq

def Status.wakened : Status → Status
  | .waiting => .woken
  | s => s

structure Thread (κ : Type) where
  pc : κ
  status : Status

structure System (ι κ σ : Type) where
  thread : ι → Thread κ
  owner : Option ι
  data : σ

inductive Event (ι : Type) where
  | run : ι → Event ι
  /-- A wake-up that no broadcast caused. -/
  | wake : ι → Event ι

namespace System

variable [DecidableEq ι]

def setThread (s : System ι κ σ) (t : ι) (th : Thread κ) : System ι κ σ :=
  { s with thread := Function.update s.thread t th }

@[simp] theorem thread_setThread_same (s : System ι κ σ) (t : ι) (th : Thread κ) :
    (s.setThread t th).thread t = th := Function.update_self ..

@[simp] theorem thread_setThread_ne (s : System ι κ σ) {t u : ι} (th : Thread κ) (h : u ≠ t) :
    (s.setThread t th).thread u = s.thread u := Function.update_of_ne h ..

@[simp] theorem owner_setThread (s : System ι κ σ) (t : ι) (th : Thread κ) :
    (s.setThread t th).owner = s.owner := rfl

@[simp] theorem data_setThread (s : System ι κ σ) (t : ι) (th : Thread κ) :
    (s.setThread t th).data = s.data := rfl

def wakeAll (s : System ι κ σ) : System ι κ σ :=
  { s with thread := fun t => ⟨(s.thread t).pc,(s.thread t).status.wakened⟩ }

/-- One instruction of a running thread. -/
def execute (s : System ι κ σ) (t : ι) : Instr ι κ σ → Option (System ι κ σ)
  | .access f =>
    some { s.setThread t ⟨(f s.data).1,.running⟩ with data := (f s.data).2 }
  | .lock k =>
    if s.owner = none then some { s.setThread t ⟨k,.running⟩ with owner := some t } else none
  | .unlock k =>
    if s.owner = some t then some { s.setThread t ⟨k,.running⟩ with owner := none } else none
  | .wait k =>
    if s.owner = some t then some { s.setThread t ⟨k,.waiting⟩ with owner := none } else none
  | .broadcast k => some (s.wakeAll.setThread t ⟨k,.running⟩)
  | .spawn u k =>
    if (s.thread u).status = .unborn then
      some ((s.setThread u ⟨(s.thread u).pc,.running⟩).setThread t ⟨k,.running⟩)
    else none
  | .done => none

def step (code : ι → κ → Instr ι κ σ) (s : System ι κ σ) : Event ι → Option (System ι κ σ)
  | .run t =>
    match (s.thread t).status with
    | .running => s.execute t (code t (s.thread t).pc)
    | .woken =>
      if s.owner = none then
        some { s.setThread t ⟨(s.thread t).pc,.running⟩ with owner := some t }
      else none
    | _ => none
  | .wake t =>
    match (s.thread t).status with
    | .waiting => some (s.setThread t ⟨(s.thread t).pc,.woken⟩)
    | _ => none

/-- Only an access changes the data. -/
theorem step_data {code : ι → κ → Instr ι κ σ} {s s' : System ι κ σ} {e : Event ι}
    (h : s.step code e = some s') : s'.data = s.data ∨
      ∃ t f, code t (s.thread t).pc = .access f ∧ s'.data = (f s.data).2 := by
  cases e with
  | wake t =>
    simp only [step] at h
    split at h <;> cases h
    exact .inl rfl
  | run t =>
    simp only [step] at h
    split at h
    · cases hi : code t (s.thread t).pc with
      | access f =>
        rw [hi] at h
        cases h
        exact .inr ⟨t,f,hi,rfl⟩
      | done =>
        rw [hi] at h
        cases h
      | broadcast k =>
        rw [hi] at h
        cases h
        exact .inl rfl
      | _ =>
        simp only [hi,execute] at h
        split at h <;> cases h
        exact .inl rfl
    · split at h <;> cases h
      exact .inl rfl
    · cases h

end System

/-- Where a running thread holds the mutex, and that the code keeps to it. -/
structure Disciplined (code : ι → κ → Instr ι κ σ) (held : ι → κ → Bool) : Prop where
  access : ∀ t k f, code t k = .access f → ∀ d, held t (f d).1 = held t k
  lock : ∀ t k k', code t k = .lock k' → held t k = false ∧ held t k' = true
  unlock : ∀ t k k', code t k = .unlock k' → held t k = true ∧ held t k' = false
  wait : ∀ t k k', code t k = .wait k' → held t k = true ∧ held t k' = true
  broadcast : ∀ t k k', code t k = .broadcast k' → held t k' = held t k
  spawn : ∀ t k u k', code t k = .spawn u k' → held t k' = held t k
  done : ∀ t k, code t k = .done → held t k = false

namespace System

/-- A thread owns the mutex exactly when it runs at a place that holds it; it starts at a
place without the mutex, and waits at one behind which it has it again. -/
def Fits (held : Bool) (owns : Prop) : Status → Prop
  | .unborn => held = false ∧ ¬ owns
  | .running => owns ↔ held = true
  | .waiting | .woken => held = true ∧ ¬ owns

def Sound (held : ι → κ → Bool) (s : System ι κ σ) : Prop :=
  ∀ t, Fits (held t (s.thread t).pc) (s.owner = some t) (s.thread t).status

section Sound

variable {code : ι → κ → Instr ι κ σ} {held : ι → κ → Bool} {s s' : System ι κ σ} {t u : ι}

theorem Sound.owner_iff (h : Sound held s) :
    s.owner = some t ↔ (s.thread t).status = .running ∧ held t (s.thread t).pc = true := by
  have ht := h t
  cases hst : (s.thread t).status <;> simp_all [Fits]

theorem Sound.unique (h : Sound held s) (ht : (s.thread t).status = .running)
    (hk : held t (s.thread t).pc = true) (hu : (s.thread u).status = .running)
    (hk' : held u (s.thread u).pc = true) : t = u := by
  have hot := h.owner_iff.mpr ⟨ht,hk⟩
  have hou := h.owner_iff.mpr ⟨hu,hk'⟩
  rw [hot] at hou
  exact Option.some.inj hou

theorem Sound.wakeAll (h : Sound held s) : Sound held s.wakeAll := by
  intro u
  have hu := h u
  cases hst : (s.thread u).status <;> simp_all [System.wakeAll,Status.wakened,Fits]

variable [DecidableEq ι]

/-- One thread moves, and the mutex with it or not at all. -/
theorem Sound.update (h : Sound held s) (th : Thread κ) (o : Option ι) (d : σ)
    (hself : Fits (held t th.pc) (o = some t) th.status)
    (hother : ∀ u, u ≠ t → (o = some u ↔ s.owner = some u)) :
    Sound held { s.setThread t th with owner := o, data := d } := by
  intro u
  by_cases hu : u = t
  · subst hu
    simpa using hself
  · simpa [hu,hother u hu] using h u

theorem Sound.move (h : Sound held s) {th : Thread κ} (d : σ)
    (hself : Fits (held t th.pc) (s.owner = some t) th.status) :
    Sound held { s.setThread t th with data := d } :=
  h.update th s.owner d hself fun _ _ => Iff.rfl

theorem Sound.take (h : Sound held s) {k : κ} (hfree : s.owner = none) (hk : held t k = true) :
    Sound held { s.setThread t ⟨k,.running⟩ with owner := some t } := by
  refine h.update _ (some t) s.data ?_ fun u hu => ?_
  · simp [Fits,hk]
  · simp [hfree,hu.symm]

theorem Sound.drop (h : Sound held s) {th : Thread κ} (hown : s.owner = some t)
    (hth : Fits (held t th.pc) False th.status) :
    Sound held { s.setThread t th with owner := none } := by
  refine h.update th none s.data ?_ fun u hu => ?_
  · simpa using hth
  · simp [hown,hu.symm]

theorem Sound.execute (hcode : Disciplined code held) (h : Sound held s)
    (ht : (s.thread t).status = .running) (hs : s.execute t (code t (s.thread t).pc) = some s') :
    Sound held s' := by
  have hfit := h t
  rw [ht] at hfit
  cases hi : code t (s.thread t).pc with
  | access f =>
    rw [hi] at hs
    cases hs
    refine h.move _ ?_
    rw [hcode.access t _ f hi s.data]
    exact hfit
  | lock k =>
    simp only [hi,System.execute] at hs
    split at hs
    · cases hs
      exact h.take ‹_› (hcode.lock t _ k hi).2
    · cases hs
  | unlock k =>
    simp only [hi,System.execute] at hs
    split at hs
    · cases hs
      exact h.drop ‹_› (by simp [Fits,(hcode.unlock t _ k hi).2])
    · cases hs
  | wait k =>
    simp only [hi,System.execute] at hs
    split at hs
    · cases hs
      exact h.drop ‹_› (by simp [Fits,(hcode.wait t _ k hi).2])
    · cases hs
  | broadcast k =>
    rw [hi] at hs
    cases hs
    refine h.wakeAll.move _ ?_
    rw [hcode.broadcast t _ k hi]
    exact hfit
  | spawn u k =>
    simp only [hi,System.execute] at hs
    split at hs
    case isTrue hu =>
      cases hs
      have hne : t ≠ u := by
        rintro rfl
        rw [ht] at hu
        cases hu
      have hborn := h u
      rw [hu] at hborn
      refine Sound.move (s := s.setThread u ⟨(s.thread u).pc,.running⟩) ?_ _ ?_
      · exact h.move _ (by simpa [Fits,hborn.1] using hborn.2)
      · rw [hcode.spawn t _ u k hi]
        exact hfit
    case isFalse => cases hs
  | done =>
    rw [hi] at hs
    cases hs

theorem Sound.step {e : Event ι} (hcode : Disciplined code held) (h : Sound held s)
    (hs : s.step code e = some s') : Sound held s' := by
  cases e with
  | wake t =>
    simp only [System.step] at hs
    split at hs
    case h_1 ht =>
      cases hs
      have hfit := h t
      rw [ht] at hfit
      exact h.move _ hfit
    case h_2 => cases hs
  | run t =>
    simp only [System.step] at hs
    split at hs
    case h_1 ht => exact h.execute hcode ht hs
    case h_2 ht =>
      split at hs
      · cases hs
        have hfit := h t
        rw [ht] at hfit
        exact h.take ‹_› hfit.1
      · cases hs
    case h_3 => cases hs

/-- Where no thread can go on, each of them has ended, was not started, or waits. -/
theorem Sound.stuck (hcode : Disciplined code held) (h : Sound held s)
    (hspawn : ∀ t u k, (s.thread t).status = .running → code t (s.thread t).pc = .spawn u k →
      (s.thread u).status = .unborn)
    (hstuck : ∀ t, s.step code (.run t) = none) (t : ι) :
    (s.thread t).status = .unborn ∨ (s.thread t).status = .waiting ∨
      (s.thread t).status = .running ∧ code t (s.thread t).pc = .done := by
  have hrun : ∀ u, (s.thread u).status = .running →
      s.execute u (code u (s.thread u).pc) = none := by
    intro u hu
    have hnone := hstuck u
    simpa only [System.step,hu] using hnone
  have howns : ∀ u, (s.thread u).status = .running → held u (s.thread u).pc = true →
      s.owner = some u := fun u hu hk => h.owner_iff.mpr ⟨hu,hk⟩
  -- the owner could go on, so there is none
  have hfree : s.owner = none := by
    cases ho : s.owner with
    | none => rfl
    | some u =>
      obtain ⟨hu,hk⟩ := h.owner_iff.mp ho
      have hex := hrun u hu
      cases hi : code u (s.thread u).pc with
      | lock k => simp [(hcode.lock u _ k hi).1] at hk
      | done => simp [hcode.done u _ hi] at hk
      | spawn v k => simp [hi,System.execute,hspawn u v k hu hi] at hex
      | _ => simp [hi,System.execute,ho] at hex
  cases hst : (s.thread t).status with
  | unborn => exact .inl rfl
  | waiting => exact .inr (.inl rfl)
  | woken =>
    have hnone := hstuck t
    simp [System.step,hst,hfree] at hnone
  | running =>
    refine .inr (.inr ⟨rfl,?_⟩)
    have hex := hrun t hst
    cases hi : code t (s.thread t).pc with
    | done => rfl
    | lock k => simp [hi,System.execute,hfree] at hex
    | unlock k =>
      have ho := howns t hst (hcode.unlock t _ k hi).1
      rw [hfree] at ho
      cases ho
    | wait k =>
      have ho := howns t hst (hcode.wait t _ k hi).1
      rw [hfree] at ho
      cases ho
    | spawn v k => simp [hi,System.execute,hspawn t v k hst hi] at hex
    | _ => simp [hi,System.execute] at hex

end Sound

end System

end CheriOsTest.Monitors
