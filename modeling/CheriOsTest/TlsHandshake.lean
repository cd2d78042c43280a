import CheriOsTest.TlsThreads
set_option autoImplicit false

/-! The handshake of the TLS test. Whatever the schedule, the main thread reads the
variables of the other thread after they are counted up and before they are gone; nobody
sleeps through a wake-up. -/

namespace CheriOsTest.TlsThreads
open CheriOsTest.CStrings CheriOsTest.Monitors CheriOsTest.Programs

/-- The places between taking the mutex and giving it back. -/
def held (_ : Who) : Pc → Bool
  | .setOne | .thrBroadcast | .thrWait | .retest | .thrUnlock => true
  | .test | .mainWait | .copy _ _ | .setTwo | .mainBroadcast | .mainUnlock => true
  | _ => false

theorem held_publishFrom (w : Who) (vs : List Var) : held w (publishFrom vs) = false := by
  cases vs <;> rfl

theorem held_copyFrom (w : Who) (vs : List Var) : held w (copyFrom vs) = true := by
  cases vs <;> rfl

theorem held_checkFrom (w : Who) (cs : List Check) : held w (checkFrom cs) = false := by
  cases cs <;> rfl

theorem code_disciplined (p : Platform) : Disciplined (code p) held where
  access w k f h d := by
    cases k with
    | copy v rest =>
      cases h
      simp only
      split
      · rfl
      · exact held_copyFrom w rest
    | check c rest =>
      cases h
      simp only
      split
      · rfl
      · exact held_checkFrom w rest
    | increment v rest =>
      cases h
      exact held_publishFrom w rest
    | test =>
      cases h
      simp only
      split
      · rfl
      · exact held_copyFrom w _
    | retest =>
      cases h
      simp only
      split <;> rfl
    | _ => cases h <;> rfl
  lock w k k' h := by cases k <;> cases h <;> exact ⟨rfl,rfl⟩
  unlock w k k' h := by
    cases k <;> cases h
    · exact ⟨rfl,rfl⟩
    · exact ⟨rfl,held_checkFrom w _⟩
  wait w k k' h := by cases k <;> cases h <;> exact ⟨rfl,rfl⟩
  broadcast w k k' h := by cases k <;> cases h <;> rfl
  spawn w k u k' h := by
    cases k <;> cases h
    rfl
  done w k h := by
    cases k <;> cases h
    rfl

/-- The variables that are not in `todo` are published and counted up, the others are not. -/
def Published (p : Platform) (d : Data) (todo : List Var) : Prop :=
  todo.Nodup ∧ (∀ v ∈ todo, d.tls .thread v = v.init) ∧
    ∀ v ∈ vars p, v ∉ todo → d.thr v = some .thread ∧ d.tls .thread v = v.init+1

def Copied (p : Platform) (d : Data) (todo : List Var) : Prop :=
  ∀ v ∈ vars p, v ∉ todo → d.val v = v.init+1

def Passed (p : Platform) (d : Data) (todo : List Check) : Prop :=
  (∀ c ∈ todo, c ∈ checks p) ∧ ∀ c ∈ checks p, c ∉ todo → c.failure p d = none

/-- What holds at each place of the thread, when the main thread is at `other`. -/
def ThreadAt (p : Platform) (d : Data) (other : Pc) (st : Status) : Pc → Prop
  | .publish v rest =>
    (st = .running ∨ st = .unborn) ∧ d.threadDone = 0 ∧ d.ended = false ∧ Published p d (v :: rest)
  | .increment v rest =>
    st = .running ∧ d.threadDone = 0 ∧ d.ended = false ∧ Published p d (v :: rest) ∧
      d.thr v = some .thread
  | .thrLock => (st = .running ∨ st = .unborn) ∧ d.threadDone = 0 ∧ d.ended = false ∧ Published p d []
  | .setOne => st = .running ∧ d.threadDone = 0 ∧ d.ended = false ∧ Published p d []
  | .thrBroadcast | .thrWait =>
    st = .running ∧ d.threadDone = 1 ∧ d.ended = false ∧ Published p d []
  | .retest =>
    st ≠ .unborn ∧ (d.threadDone = 1 ∨ d.threadDone = 2) ∧ d.ended = false ∧ Published p d [] ∧
      -- a thread that is told and still waits is about to be woken
      (st = .waiting → d.threadDone = 2 → other = .mainBroadcast)
  | .thrUnlock | .thrReturn =>
    st = .running ∧ d.threadDone = 2 ∧ d.ended = false ∧ Published p d []
  | .thrEnd => st = .running ∧ d.threadDone = 2 ∧ Published p d []
  | _ => False

/-- What holds at each place of the main thread. -/
def MainAt (p : Platform) (d : Data) (other : Thread Pc) (st : Status) : Pc → Prop
  | .create => st = .running ∧ d.threadDone = 0 ∧ other.status = .unborn
  | .mainLock =>
    st = .running ∧ (d.threadDone = 0 ∨ d.threadDone = 1) ∧ other.status ≠ .unborn
  | .test =>
    st ≠ .unborn ∧ (d.threadDone = 0 ∨ d.threadDone = 1) ∧ other.status ≠ .unborn ∧
      (st = .waiting → d.threadDone = 1 → other.pc = .thrBroadcast)
  | .mainWait => st = .running ∧ d.threadDone = 0 ∧ other.status ≠ .unborn
  | .copy v rest =>
    st = .running ∧ d.threadDone = 1 ∧ other.status ≠ .unborn ∧ v ∈ vars p ∧
      (∀ u ∈ rest, u ∈ vars p) ∧ Copied p d (v :: rest)
  | .setTwo => st = .running ∧ d.threadDone = 1 ∧ other.status ≠ .unborn ∧ Copied p d []
  | .mainBroadcast | .mainUnlock =>
    st = .running ∧ d.threadDone = 2 ∧ other.status ≠ .unborn ∧ Copied p d []
  | .check c rest =>
    st = .running ∧ d.threadDone = 2 ∧ other.status ≠ .unborn ∧ Copied p d [] ∧
      Passed p d (c :: rest)
  | .succeed =>
    st = .running ∧ d.threadDone = 2 ∧ other.status ≠ .unborn ∧ Copied p d [] ∧ Passed p d []
  | _ => False

/-- The checks of where the variables are, which no schedule changes. -/
def Check.IsPlacement : Check → Prop
  | .disjoint _ | .bounds _ _ => True
  | _ => False

/-- A report that the handshake allows: it is never about a value that was read. -/
def Allowed (p : Platform) : Stop → Prop
  | .success => ∀ c ∈ checks p, c.IsPlacement → ∀ d, c.failure p d = none
  | .errx msg => ∃ c ∈ checks p, c.IsPlacement ∧ ∀ d, c.failure p d = some msg
  | .errc error _ => error ≠ 0
  | .fault => False

structure Handshake (p : Platform) (s : TlsState) : Prop where
  sound : s.Sound held
  thread : ThreadAt p s.data (s.thread .main).pc (s.thread .thread).status (s.thread .thread).pc
  main : MainAt p s.data (s.thread .thread) (s.thread .main).status (s.thread .main).pc
  own : ∀ v, s.data.tls .main v = v.init
  stop : ∀ st, s.data.stop = some st → Allowed p st

section Frame

variable {p : Platform} {d d' : Data}

theorem failure_placement {c : Check} (hc : c.IsPlacement) : c.failure p d = c.failure p d' := by
  cases c with
  | mine v => cases hc
  | theirs v => cases hc
  | _ => rfl

theorem failure_congr (hval : d'.val = d.val) (htls : d'.tls .main = d.tls .main) (c : Check) :
    c.failure p d' = c.failure p d := by
  cases c <;> simp only [Check.failure,hval,htls]

theorem Published.congr {todo : List Var} (h : Published p d todo) (hthr : d'.thr = d.thr)
    (htls : d'.tls .thread = d.tls .thread) : Published p d' todo := by
  simpa only [Published,hthr,htls] using h

/-- The thread moves at a place where it owes no wake-up. -/
theorem MainAt.frame {o o' : Thread Pc} {st : Status} {k : Pc} (h : MainAt p d o st k)
    (hval : d'.val = d.val) (htls : d'.tls .main = d.tls .main)
    (hdone : d'.threadDone = d.threadDone) (ho : o.status ≠ .unborn) (ho' : o'.status ≠ .unborn)
    (hpc : o.pc ≠ .thrBroadcast) : MainAt p d' o' st k := by
  have hpassed : ∀ todo, Passed p d' todo ↔ Passed p d todo := fun todo => by
    simp only [Passed,failure_congr hval htls]
  have hcopied : ∀ todo, Copied p d' todo ↔ Copied p d todo := fun todo => by
    simp only [Copied,hval]
  cases k <;> simp only [MainAt,hdone,hcopied,hpassed] at h ⊢ <;> simp_all

/-- The main thread moves at a place where it owes no wake-up. -/
theorem ThreadAt.frame {k k' kt : Pc} {st : Status} (h : ThreadAt p d k st kt)
    (hthr : d'.thr = d.thr) (htls : d'.tls .thread = d.tls .thread)
    (hdone : d'.threadDone = d.threadDone) (hended : d'.ended = d.ended)
    (hk : k ≠ .mainBroadcast) : ThreadAt p d' k' st kt := by
  have hpublished : ∀ todo, Published p d' todo ↔ Published p d todo := fun todo => by
    simp only [Published,hthr,htls]
  cases kt <;> simp only [ThreadAt,hdone,hended,hthr,hpublished] at h ⊢ <;> simp_all

end Frame

section Steps

variable {p : Platform} {s s' : TlsState}

theorem Published.counted {d : Data} {v : Var} {rest : List Var}
    (h : Published p d (v :: rest)) (hv : d.thr v = some .thread) :
    Published p (d.set .thread v (d.tls .thread v+1)) rest := by
  obtain ⟨hnodup,htodo,hdone⟩ := h
  have hvr : v ∉ rest := (List.nodup_cons.mp hnodup).1
  have hset : ∀ u, u ≠ v → (d.set .thread v (d.tls .thread v+1)).tls .thread u = d.tls .thread u := by
    intro u hu
    simp [Data.set,hu]
  refine ⟨(List.nodup_cons.mp hnodup).2,fun u hu => ?_,fun u hu hur => ?_⟩
  · rw [hset u (fun huv => hvr (huv ▸ hu))]
    exact htodo u (List.mem_cons_of_mem v hu)
  · by_cases huv : u = v
    · subst huv
      refine ⟨hv,?_⟩
      simp [Data.set,htodo u List.mem_cons_self]
    · rw [hset u huv]
      exact hdone u hu (by simp [huv,hur])

theorem ThreadAt.publishFrom {d : Data} {k : Pc} {todo : List Var} (hdone : d.threadDone = 0)
    (hended : d.ended = false) (h : Published p d todo) :
    ThreadAt p d k .running (publishFrom todo) := by
  cases todo with
  | nil => exact ⟨.inl rfl,hdone,hended,h⟩
  | cons v rest => exact ⟨.inl rfl,hdone,hended,h⟩

/-- A step of the thread that leaves `threadDone` alone and owes no wake-up. -/
theorem Handshake.thread_moves (h : Handshake p s) (hst : (s.thread .thread).status ≠ .unborn)
    (hpc : (s.thread .thread).pc ≠ .thrBroadcast) {th : Thread Pc} {o : Option Who} {d : Data}
    (hsound : System.Sound held { s.setThread .thread th with owner := o, data := d })
    (hval : d.val = s.data.val) (htls : d.tls .main = s.data.tls .main)
    (hdone : d.threadDone = s.data.threadDone) (hstop : d.stop = s.data.stop)
    (hborn : th.status ≠ .unborn) (hth : ThreadAt p d (s.thread .main).pc th.status th.pc) :
    Handshake p { s.setThread .thread th with owner := o, data := d } where
  sound := hsound
  thread := by simpa using hth
  main := by simpa using h.main.frame hval htls hdone hst hborn hpc
  own := by simpa [htls] using h.own
  stop := by simpa [hstop] using h.stop

theorem Handshake.setOne (h : Handshake p s) (hst : (s.thread .thread).status = .running)
    (hpc : (s.thread .thread).pc = .setOne)
    (hsound : System.Sound held { s.setThread .thread ⟨.thrBroadcast,.running⟩ with
      data := { s.data with threadDone := 1 } }) :
    Handshake p { s.setThread .thread ⟨.thrBroadcast,.running⟩ with
      data := { s.data with threadDone := 1 } } where
  sound := hsound
  thread := by
    have hthread := h.thread
    rw [hpc] at hthread
    simpa using ⟨rfl,rfl,hthread.2.2⟩
  main := by
    have hmain := h.main
    have hdone : s.data.threadDone = 0 := by
      have hthread := h.thread
      rw [hpc] at hthread
      exact hthread.2.1
    -- the main thread cannot be between its test and its wait: this thread has the mutex
    have hwait : (s.thread .main).pc = .mainWait → (s.thread .main).status ≠ .running := by
      intro hm hrun
      have heq := h.sound.unique hst (by rw [hpc]; rfl) hrun (by rw [hm]; rfl)
      cases heq
    cases hm : (s.thread .main).pc with
    | mainWait =>
      rw [hm] at hmain
      exact absurd hmain.1 (hwait hm)
    | _ => rw [hm] at hmain; simp_all [MainAt]
  own := h.own
  stop := h.stop

theorem Handshake.thrBroadcast (h : Handshake p s) (hst : (s.thread .thread).status = .running)
    (hpc : (s.thread .thread).pc = .thrBroadcast)
    (hsound : System.Sound held (s.wakeAll.setThread .thread ⟨.thrWait,.running⟩)) :
    Handshake p (s.wakeAll.setThread .thread ⟨.thrWait,.running⟩) where
  sound := hsound
  thread := by
    have hthread := h.thread
    rw [hpc,hst] at hthread
    simpa [System.wakeAll,ThreadAt] using hthread
  main := by
    have hmain := h.main
    cases hm : (s.thread .main).pc with
    | test =>
      rw [hm] at hmain
      cases hs : (s.thread .main).status <;> simp_all [MainAt,System.wakeAll,Status.wakened]
    | _ => rw [hm] at hmain; simp_all [MainAt,System.wakeAll,Status.wakened]
  own := h.own
  stop := h.stop

theorem Handshake.execute_thread (h : Handshake p s) (hst : (s.thread .thread).status = .running)
    (hsound : s'.Sound held)
    (hs : s.execute .thread (code p .thread (s.thread .thread).pc) = some s') : Handshake p s' := by
  have hthread := h.thread
  have hne : (s.thread .thread).status ≠ .unborn := by simp [hst]
  cases hpc : (s.thread .thread).pc with
  | publish v rest =>
    rw [hpc] at hs hthread
    cases hs
    obtain ⟨-,hdone,hended,hnodup,htodo,hpub⟩ := hthread
    refine h.thread_moves hne (by simp [hpc]) hsound rfl rfl rfl rfl (by simp) ⟨rfl,hdone,hended,?_,by simp⟩
    refine ⟨hnodup,htodo,fun u hu hur => ?_⟩
    have huv : u ≠ v := fun huv => hur (huv ▸ List.mem_cons_self)
    simpa [huv] using hpub u hu hur
  | increment v rest =>
    rw [hpc] at hs hthread
    cases hs
    obtain ⟨-,hdone,hended,hpub,hv⟩ := hthread
    exact h.thread_moves hne (by simp [hpc]) hsound rfl (by simp [Data.set]) rfl rfl (by simp)
      (.publishFrom hdone hended (hpub.counted hv))
  | thrLock =>
    simp only [hpc,code,System.execute] at hs
    rw [hpc] at hthread
    split at hs
    · cases hs
      exact h.thread_moves hne (by simp [hpc]) hsound rfl rfl rfl rfl (by simp) ⟨rfl,hthread.2⟩
    · cases hs
  | setOne =>
    rw [hpc] at hs
    cases hs
    exact h.setOne hst hpc hsound
  | thrBroadcast =>
    rw [hpc] at hs
    cases hs
    exact h.thrBroadcast hst hpc hsound
  | thrWait =>
    simp only [hpc,code,System.execute] at hs
    rw [hpc] at hthread
    obtain ⟨-,hdone,hended,hpub⟩ := hthread
    split at hs
    · cases hs
      refine h.thread_moves hne (by simp [hpc]) hsound rfl rfl rfl rfl (by simp)
        ⟨by simp,.inl hdone,hended,hpub,fun _ htwo => ?_⟩
      exact absurd (hdone.symm.trans htwo) (by decide)
    · cases hs
  | retest =>
    rw [hpc] at hs hthread
    cases hs
    obtain ⟨-,hdone,hended,hpub,-⟩ := hthread
    refine h.thread_moves hne (by simp [hpc]) hsound rfl rfl rfl rfl (by simp) ?_
    by_cases hone : s.data.threadDone = 1
    · simp only [hone,if_true]
      exact ⟨rfl,hone,hended,hpub⟩
    · simp only [hone,if_false]
      exact ⟨rfl,hdone.resolve_left hone,hended,hpub⟩
  | thrUnlock =>
    simp only [hpc,code,System.execute] at hs
    rw [hpc,hst] at hthread
    split at hs
    · cases hs
      exact h.thread_moves hne (by simp [hpc]) hsound rfl rfl rfl rfl (by simp) hthread
    · cases hs
  | thrReturn =>
    rw [hpc] at hs hthread
    cases hs
    exact h.thread_moves hne (by simp [hpc]) hsound rfl rfl rfl rfl (by simp)
      ⟨rfl,hthread.2.1,hthread.2.2.2⟩
  | thrEnd =>
    rw [hpc] at hs
    cases hs
  | _ =>
    rw [hpc] at hthread
    exact hthread.elim

/-- A step of the main thread that leaves `threadDone` alone and owes no wake-up. -/
theorem Handshake.main_moves (h : Handshake p s) (hpc : (s.thread .main).pc ≠ .mainBroadcast)
    {th : Thread Pc} {o : Option Who} {d : Data}
    (hsound : System.Sound held { s.setThread .main th with owner := o, data := d })
    (hthr : d.thr = s.data.thr) (htls : d.tls = s.data.tls)
    (hdone : d.threadDone = s.data.threadDone) (hended : d.ended = s.data.ended)
    (hstop : ∀ st, d.stop = some st → Allowed p st)
    (hth : MainAt p d (s.thread .thread) th.status th.pc) :
    Handshake p { s.setThread .main th with owner := o, data := d } where
  sound := hsound
  thread := by simpa using h.thread.frame hthr (by rw [htls]) hdone hended hpc
  main := by simpa using hth
  own := by simpa [htls] using h.own
  stop := hstop

theorem Handshake.setTwo (h : Handshake p s) (hst : (s.thread .main).status = .running)
    (hpc : (s.thread .main).pc = .setTwo)
    (hsound : System.Sound held { s.setThread .main ⟨.mainBroadcast,.running⟩ with
      data := { s.data with threadDone := 2 } }) :
    Handshake p { s.setThread .main ⟨.mainBroadcast,.running⟩ with
      data := { s.data with threadDone := 2 } } where
  sound := hsound
  thread := by
    have hmain := h.main
    rw [hpc] at hmain
    have hthread := h.thread
    have hone : s.data.threadDone = 1 := hmain.2.1
    -- the thread is not on its way into the wait: the main thread has the mutex
    have hheld : held .thread (s.thread .thread).pc = true → (s.thread .thread).status ≠ .running := by
      intro hk hrun
      have heq := h.sound.unique hrun hk hst (by rw [hpc]; rfl)
      cases heq
    cases ht : (s.thread .thread).pc with
    | thrBroadcast =>
      rw [ht] at hthread hheld
      exact absurd hthread.1 (hheld rfl)
    | thrWait =>
      rw [ht] at hthread hheld
      exact absurd hthread.1 (hheld rfl)
    | _ => rw [ht] at hthread; simp_all [ThreadAt,Published]
  main := by
    have hmain := h.main
    rw [hpc] at hmain
    simpa using ⟨rfl,rfl,hmain.2.2⟩
  own := h.own
  stop := h.stop

theorem Handshake.mainBroadcast (h : Handshake p s) (hst : (s.thread .main).status = .running)
    (hpc : (s.thread .main).pc = .mainBroadcast)
    (hsound : System.Sound held (s.wakeAll.setThread .main ⟨.mainUnlock,.running⟩)) :
    Handshake p (s.wakeAll.setThread .main ⟨.mainUnlock,.running⟩) where
  sound := hsound
  thread := by
    have hthread := h.thread
    cases ht : (s.thread .thread).pc with
    | retest =>
      rw [ht] at hthread
      cases hs : (s.thread .thread).status <;> simp_all [ThreadAt,System.wakeAll,Status.wakened]
    | _ =>
      rw [ht] at hthread
      cases hs : (s.thread .thread).status <;> simp_all [ThreadAt,System.wakeAll,Status.wakened]
  main := by
    have hmain := h.main
    rw [hpc,hst] at hmain
    obtain ⟨-,hdone,hborn,hcopied⟩ := hmain
    refine ⟨by simp,hdone,?_,hcopied⟩
    cases hs : (s.thread .thread).status <;> simp_all [System.wakeAll,Status.wakened]
  own := h.own
  stop := h.stop

theorem Handshake.create (h : Handshake p s) (hpc : (s.thread .main).pc = .create)
    (hsound : System.Sound held ((s.setThread .thread ⟨(s.thread .thread).pc,.running⟩).setThread
      .main ⟨.mainLock,.running⟩)) :
    Handshake p ((s.setThread .thread ⟨(s.thread .thread).pc,.running⟩).setThread
      .main ⟨.mainLock,.running⟩) where
  sound := hsound
  thread := by
    have hmain := h.main
    rw [hpc] at hmain
    have hthread := h.thread
    rw [hmain.2.2] at hthread
    cases ht : (s.thread .thread).pc <;> rw [ht] at hthread <;> simp_all [ThreadAt]
  main := by
    have hmain := h.main
    rw [hpc] at hmain
    simpa using ⟨rfl,.inl hmain.2.1,by simp⟩
  own := h.own
  stop := h.stop

theorem MainAt.copyFrom {d : Data} {o : Thread Pc} {todo : List Var} (hdone : d.threadDone = 1)
    (ho : o.status ≠ .unborn) (hvars : ∀ v ∈ todo, v ∈ vars p) (h : Copied p d todo) :
    MainAt p d o .running (copyFrom todo) := by
  cases todo with
  | nil => exact ⟨rfl,hdone,ho,h⟩
  | cons v rest =>
    rw [List.forall_mem_cons] at hvars
    exact ⟨rfl,hdone,ho,hvars.1,hvars.2,h⟩

theorem MainAt.checkFrom {d : Data} {o : Thread Pc} {todo : List Check} (hdone : d.threadDone = 2)
    (ho : o.status ≠ .unborn) (hcopied : Copied p d []) (h : Passed p d todo) :
    MainAt p d o .running (checkFrom todo) := by
  cases todo with
  | nil => exact ⟨rfl,hdone,ho,hcopied,h⟩
  | cons c rest => exact ⟨rfl,hdone,ho,hcopied,h⟩

/-- While the main thread copies, the other thread has published and waits. -/
theorem Handshake.deref (h : Handshake p s) (hone : s.data.threadDone = 1) {v : Var}
    (hv : v ∈ vars p) : s.data.thr v = some .thread ∧ s.data.ended = false ∧
      s.data.tls .thread v = v.init+1 := by
  have hthread := h.thread
  cases ht : (s.thread .thread).pc <;> rw [ht] at hthread <;> simp_all [ThreadAt,Published]

theorem Copied.copied {d : Data} {v : Var} {rest : List Var} (h : Copied p d (v :: rest))
    {n : Int} (hn : n = v.init+1) : Copied p { d with val := Function.update d.val v n } rest := by
  intro u hu hur
  by_cases huv : u = v
  · subst huv
    simpa using hn
  · simpa [huv] using h u hu (by simp [huv,hur])

theorem Passed.passed {d : Data} {c : Check} {rest : List Check} (h : Passed p d (c :: rest))
    (hc : c.failure p d = none) : Passed p d rest := by
  refine ⟨fun c' hc' => h.1 c' (List.mem_cons_of_mem c hc'),fun c' hc' hcr => ?_⟩
  by_cases hcc : c' = c
  · rw [hcc]
    exact hc
  · exact h.2 c' hc' (by simp [hcc,hcr])

/-- A check that fails is one of the placement: the values are what they should be. -/
theorem failure_allowed {d : Data} (hown : ∀ v, d.tls .main v = v.init) (hcopied : Copied p d [])
    {c : Check} (hc : c ∈ checks p) {msg : CString} (hmsg : c.failure p d = some msg) :
    Allowed p (.errx msg) := by
  cases c with
  | mine v => simp [Check.failure,hown v] at hmsg
  | theirs v =>
    have hv : v ∈ vars p := by
      unfold checks at hc
      split_ifs at hc <;> simpa using hc
    simp [Check.failure,hcopied v hv List.not_mem_nil] at hmsg
  | disjoint v => exact ⟨_,hc,trivial,fun _ => hmsg⟩
  | bounds w v => exact ⟨_,hc,trivial,fun _ => hmsg⟩

theorem Handshake.execute_main (h : Handshake p s) (hst : (s.thread .main).status = .running)
    (hlive : s.data.stop = none) (hsound : s'.Sound held)
    (hs : s.execute .main (code p .main (s.thread .main).pc) = some s') : Handshake p s' := by
  have hmain := h.main
  have hnever : ∀ st, s.data.stop = some st → Allowed p st := fun st hst => by simp [hlive] at hst
  cases hpc : (s.thread .main).pc with
  | create =>
    simp only [hpc,code,System.execute] at hs
    split at hs
    · cases hs
      exact h.create hpc hsound
    · cases hs
  | mainLock =>
    simp only [hpc,code,System.execute] at hs
    rw [hpc] at hmain
    split at hs
    · cases hs
      exact h.main_moves (by simp [hpc]) hsound rfl rfl rfl rfl hnever
        ⟨by simp,hmain.2.1,hmain.2.2,by simp⟩
    · cases hs
  | test =>
    rw [hpc] at hs hmain
    cases hs
    obtain ⟨-,hdone,hborn,-⟩ := hmain
    refine h.main_moves (by simp [hpc]) hsound rfl rfl rfl rfl hnever ?_
    by_cases hzero : s.data.threadDone = 0
    · simp only [hzero,if_true]
      exact ⟨rfl,hzero,hborn⟩
    · simp only [hzero,if_false]
      exact .copyFrom (hdone.resolve_left hzero) hborn (fun _ hv => hv) fun v hv hnot => absurd hv hnot
  | mainWait =>
    simp only [hpc,code,System.execute] at hs
    rw [hpc] at hmain
    split at hs
    · cases hs
      refine h.main_moves (by simp [hpc]) hsound rfl rfl rfl rfl hnever
        ⟨by simp,.inl hmain.2.1,hmain.2.2,fun _ hone => ?_⟩
      exact absurd (hmain.2.1.symm.trans hone) (by decide)
    · cases hs
  | copy v rest =>
    rw [hpc] at hmain
    obtain ⟨-,hdone,hborn,hv,hrest,hcopied⟩ := hmain
    obtain ⟨hthr,hended,htls⟩ := h.deref hdone hv
    have hderef : s.data.deref v = some (v.init+1) := by simp [Data.deref,hthr,hended,htls]
    simp only [hpc,code,System.execute,hderef] at hs
    cases hs
    exact h.main_moves (by simp [hpc]) hsound rfl rfl rfl rfl hnever
      (.copyFrom hdone hborn hrest (hcopied.copied rfl))
  | setTwo =>
    rw [hpc] at hs
    cases hs
    exact h.setTwo hst hpc hsound
  | mainBroadcast =>
    rw [hpc] at hs
    cases hs
    exact h.mainBroadcast hst hpc hsound
  | mainUnlock =>
    simp only [hpc,code,System.execute] at hs
    rw [hpc] at hmain
    obtain ⟨-,hdone,hborn,hcopied⟩ := hmain
    split at hs
    · cases hs
      exact h.main_moves (by simp [hpc]) hsound rfl rfl rfl rfl hnever
        (.checkFrom hdone hborn hcopied ⟨fun _ hc => hc,fun c hc hnot => absurd hc hnot⟩)
    · cases hs
  | check c rest =>
    rw [hpc] at hmain
    obtain ⟨-,hdone,hborn,hcopied,hpassed⟩ := hmain
    simp only [hpc,code,System.execute] at hs
    cases hf : c.failure p s.data with
    | none =>
      simp only [hf] at hs
      cases hs
      exact h.main_moves (by simp [hpc]) hsound rfl rfl rfl rfl hnever
        (.checkFrom hdone hborn hcopied (hpassed.passed hf))
    | some msg =>
      simp only [hf] at hs
      cases hs
      refine h.main_moves (by simp [hpc]) hsound rfl rfl rfl rfl ?_ ⟨rfl,hdone,hborn,hcopied,hpassed⟩
      intro st hst
      cases hst
      exact failure_allowed h.own hcopied (hpassed.1 c List.mem_cons_self) hf
  | succeed =>
    rw [hpc] at hs hmain
    cases hs
    obtain ⟨-,hdone,hborn,hcopied,hpassed⟩ := hmain
    refine h.main_moves (by simp [hpc]) hsound rfl rfl rfl rfl ?_ ⟨rfl,hdone,hborn,hcopied,hpassed⟩
    intro st hst
    cases hst
    exact fun c hc hplace d => (failure_placement hplace).trans (hpassed.2 c hc List.not_mem_nil)
  | _ =>
    rw [hpc] at hmain
    exact hmain.elim

/-- A thread that waits is woken, or a woken one takes the mutex again. -/
theorem Handshake.resume (h : Handshake p s) {w : Who} {st : Status} {o : Option Who}
    (hw : (s.thread w).status = .waiting ∧ st = .woken ∨
      (s.thread w).status = .woken ∧ st = .running)
    (hsound : System.Sound held { s.setThread w ⟨(s.thread w).pc,st⟩ with owner := o }) :
    Handshake p { s.setThread w ⟨(s.thread w).pc,st⟩ with owner := o } where
  sound := hsound
  thread := by
    have hthread := h.thread
    cases w with
    | main => simpa using hthread
    | thread =>
      cases ht : (s.thread .thread).pc <;> rw [ht] at hthread <;>
        rcases hw with ⟨hw,rfl⟩ | ⟨hw,rfl⟩ <;> simp_all [ThreadAt]
  main := by
    have hmain := h.main
    cases w with
    | thread =>
      cases hm : (s.thread .main).pc <;> rw [hm] at hmain <;>
        rcases hw with ⟨hw,rfl⟩ | ⟨hw,rfl⟩ <;> simp_all [MainAt]
    | main =>
      cases hm : (s.thread .main).pc <;> rw [hm] at hmain <;>
        rcases hw with ⟨hw,rfl⟩ | ⟨hw,rfl⟩ <;> simp_all [MainAt]
  own := h.own
  stop := h.stop

theorem Handshake.step {e : TlsEvent} (h : Handshake p s) (hs : tlsStep p s e = some s') :
    Handshake p s' := by
  unfold tlsStep at hs
  split at hs
  case isTrue => cases hs
  case isFalse hstop =>
  have hlive : s.data.stop = none := by simpa using hstop
  cases e with
  | sys e =>
    have hsound : s'.Sound held := h.sound.step (code_disciplined p) hs
    cases e with
    | run w =>
      simp only [System.step] at hs
      split at hs
      case h_1 hst =>
        cases w with
        | main => exact h.execute_main hst hlive hsound hs
        | thread => exact h.execute_thread hst hsound hs
      case h_2 hst =>
        split at hs
        · cases hs
          exact h.resume (.inr ⟨hst,rfl⟩) hsound
        · cases hs
      case h_3 => cases hs
    | wake w =>
      simp only [System.step] at hs
      split at hs
      case h_1 hst =>
        cases hs
        exact h.resume (.inl ⟨hst,rfl⟩) hsound
      case h_2 => cases hs
  | fails w error =>
    simp only at hs
    have hkeep : ∀ what, error ≠ 0 →
        Handshake p { s with data := { s.data with stop := some (.errc error what) } } := by
      intro what herror
      refine ⟨h.sound,h.thread,h.main,h.own,fun st hst => ?_⟩
      cases hst
      exact herror
    split at hs
    · split at hs
      · cases hs
      · cases hs
        exact hkeep _ ‹_›
    · split at hs
      · cases hs
      · cases hs
        exact hkeep _ ‹_›
    · cases hs

end Steps

theorem Handshake.start (p : Platform) (locals : Var → Int) : Handshake p (tlsStart p locals) where
  sound w := by
    cases w with
    | main => exact ⟨fun h => (by cases h),fun h => (by cases h)⟩
    | thread => exact ⟨held_publishFrom _ _,fun h => (by cases h)⟩
  thread := by
    have hpublished : Published p (tlsStart p locals).data (vars p) := by
      refine ⟨?_,fun v _ => rfl,fun v hv hnot => absurd hv hnot⟩
      unfold vars
      split_ifs <;> decide
    change ThreadAt p _ _ .unborn (publishFrom (vars p))
    cases hv : vars p with
    | nil => exact ⟨.inr rfl,rfl,rfl,hv ▸ hpublished⟩
    | cons v rest => exact ⟨.inr rfl,rfl,rfl,hv ▸ hpublished⟩
  main := ⟨rfl,rfl,rfl⟩
  own _ := rfl
  stop st hst := by cases hst

theorem Handshake.reached {p : Platform} {locals : Var → Int} {s : TlsState}
    {ok : TlsState → TlsEvent → Prop} (h : Reached (tlsStep p) ok (tlsStart p locals) s) :
    Handshake p s :=
  h.invariant (Handshake p) (.start p locals) fun _ _ _ hs _ hstep => hs.step hstep

/-- The steps that the thread can still make, but for spurious wake-ups. -/
def threadRank (done : Int) (st : Status) : Pc → Nat
  | .publish _ rest => 2*rest.length+12
  | .increment _ rest => 2*rest.length+11
  | .thrLock => 9
  | .setOne => 8
  | .thrBroadcast => 7
  | .thrWait => 6
  | .retest =>
    match st with
    | .woken => if done = 1 then 8 else 4
    | .running => if done = 1 then 7 else 3
    | _ => 5
  | .thrUnlock => 2
  | .thrReturn => 1
  | _ => 0

def mainRank (p : Platform) (done : Int) (st : Status) : Pc → Nat
  | .create => (vars p).length+(checks p).length+11
  | .mainLock => (vars p).length+(checks p).length+10
  | .test =>
    match st with
    | .woken => (vars p).length+(checks p).length+if done = 0 then 10 else 6
    | .running => (vars p).length+(checks p).length+if done = 0 then 9 else 5
    | _ => (vars p).length+(checks p).length+7
  | .mainWait => (vars p).length+(checks p).length+8
  | .copy _ rest => rest.length+(checks p).length+5
  | .setTwo => (checks p).length+4
  | .mainBroadcast => (checks p).length+3
  | .mainUnlock => (checks p).length+2
  | .check _ rest => rest.length+2
  | _ => 1

def measure (p : Platform) (s : TlsState) : Nat :=
  if s.data.stop.isSome then 0
  else threadRank s.data.threadDone (s.thread .thread).status (s.thread .thread).pc +
    mainRank p s.data.threadDone (s.thread .main).status (s.thread .main).pc

section Measure

variable {p : Platform} {s s' : TlsState}

theorem measure_live (h : s.data.stop = none) : measure p s =
    threadRank s.data.threadDone (s.thread .thread).status (s.thread .thread).pc +
      mainRank p s.data.threadDone (s.thread .main).status (s.thread .main).pc := by
  simp [measure,h]

theorem mainRank_pos {d : Data} {o : Thread Pc} {st : Status} {k : Pc} (h : MainAt p d o st k)
    (done : Int) : 0 < mainRank p done st k := by
  cases k with
  | test => cases st <;> simp only [mainRank] <;> grind
  | _ => simp_all [MainAt,mainRank]

theorem measure_pos (h : Handshake p s) (hlive : s.data.stop = none) : 0 < measure p s := by
  rw [measure_live hlive]
  have hmain := mainRank_pos h.main s.data.threadDone
  omega

theorem threadRank_publishFrom (vs : List Var) :
    threadRank 0 .running (publishFrom vs) ≤ 2*vs.length+10 := by
  cases vs <;> simp [publishFrom,threadRank]; omega

theorem mainRank_copyFrom (done : Int) (vs : List Var) :
    mainRank p done .running (copyFrom vs) = vs.length+(checks p).length+4 := by
  cases vs <;> simp [copyFrom,mainRank]; omega

theorem mainRank_checkFrom (done : Int) (cs : List Check) :
    mainRank p done .running (checkFrom cs) = cs.length+1 := by
  cases cs <;> simp [checkFrom,mainRank]

theorem measure_execute_thread (h : Handshake p s) (hlive : s.data.stop = none)
    (hst : (s.thread .thread).status = .running)
    (hs : s.execute .thread (code p .thread (s.thread .thread).pc) = some s') :
    measure p s' + 1 ≤ measure p s := by
  have hthread := h.thread
  have hmain := h.main
  rw [measure_live hlive,hst]
  cases hpc : (s.thread .thread).pc with
  | publish v rest =>
    rw [hpc] at hs
    cases hs
    simp [measure,hlive,threadRank]
  | increment v rest =>
    rw [hpc] at hs hthread
    cases hs
    have hrank := threadRank_publishFrom rest
    have hhere : threadRank 0 .running (.increment v rest) = 2*rest.length+11 := rfl
    simp [measure,hlive,hthread.2.1,Data.set,hhere]
    omega
  | setOne =>
    rw [hpc] at hs hthread
    cases hs
    have hrank : mainRank p 1 (s.thread .main).status (s.thread .main).pc ≤
        mainRank p 0 (s.thread .main).status (s.thread .main).pc := by
      cases (s.thread .main).pc with
      | test => cases (s.thread .main).status <;> simp [mainRank]
      | _ => simp [mainRank]
    simp [measure,hlive,threadRank,hthread.2.1]
    omega
  | thrBroadcast =>
    rw [hpc] at hs hthread
    cases hs
    have hrank : mainRank p 1 (s.thread .main).status.wakened (s.thread .main).pc ≤
        mainRank p 1 (s.thread .main).status (s.thread .main).pc := by
      cases (s.thread .main).pc with
      | test => cases (s.thread .main).status <;> simp [mainRank,Status.wakened]
      | _ => simp [mainRank]
    simp [measure,hlive,threadRank,hthread.2.1,System.wakeAll]
    omega
  | retest =>
    rw [hpc] at hs hthread
    cases hs
    rcases hthread.2.1 with hdone | hdone <;> simp [measure,hlive,threadRank,hdone]
  | thrLock =>
    simp only [hpc,code,System.execute] at hs
    split at hs
    · cases hs
      simp [measure,hlive,threadRank]
    · cases hs
  | thrWait =>
    simp only [hpc,code,System.execute] at hs
    split at hs
    · cases hs
      simp [measure,hlive,threadRank]
    · cases hs
  | thrUnlock =>
    simp only [hpc,code,System.execute] at hs
    split at hs
    · cases hs
      simp [measure,hlive,threadRank]
    · cases hs
  | thrReturn =>
    rw [hpc] at hs
    cases hs
    simp [measure,hlive,threadRank]
  | thrEnd =>
    rw [hpc] at hs
    cases hs
  | _ =>
    rw [hpc] at hthread
    exact hthread.elim

theorem measure_execute_main (h : Handshake p s) (hlive : s.data.stop = none)
    (hst : (s.thread .main).status = .running)
    (hs : s.execute .main (code p .main (s.thread .main).pc) = some s') :
    measure p s' + 1 ≤ measure p s := by
  have hthread := h.thread
  have hmain := h.main
  have hpos := measure_pos h hlive
  rw [measure_live hlive,hst]
  cases hpc : (s.thread .main).pc with
  | create =>
    simp only [hpc,code,System.execute] at hs
    rw [hpc] at hmain
    split at hs
    · cases hs
      have hrank : threadRank s.data.threadDone .running (s.thread .thread).pc =
          threadRank s.data.threadDone .unborn (s.thread .thread).pc := by
        rw [hmain.2.2] at hthread
        cases ht : (s.thread .thread).pc <;> rw [ht] at hthread <;> simp_all [ThreadAt,threadRank]
      simp [measure,hlive,mainRank,hmain.2.2,hrank]
    · cases hs
  | mainLock =>
    simp only [hpc,code,System.execute] at hs
    rw [hpc] at hmain
    split at hs
    · cases hs
      rcases hmain.2.1 with hdone | hdone <;> simp [measure,hlive,mainRank,hdone]
    · cases hs
  | test =>
    rw [hpc] at hs
    cases hs
    by_cases hzero : s.data.threadDone = 0
    · simp [measure,hlive,mainRank,hzero]
    · simp [measure,hlive,hzero,mainRank_copyFrom]
      simp [mainRank,hzero]
  | mainWait =>
    simp only [hpc,code,System.execute] at hs
    split at hs
    · cases hs
      simp [measure,hlive,mainRank]
    · cases hs
  | copy v rest =>
    rw [hpc] at hmain
    obtain ⟨hthr,hended,htls⟩ := h.deref hmain.2.1 hmain.2.2.2.1
    have hderef : s.data.deref v = some (v.init+1) := by simp [Data.deref,hthr,hended,htls]
    simp only [hpc,code,System.execute,hderef] at hs
    cases hs
    simp [measure,hlive,mainRank_copyFrom]
    simp [mainRank]
  | setTwo =>
    rw [hpc] at hs
    cases hs
    have hrank : threadRank 2 (s.thread .thread).status (s.thread .thread).pc ≤
        threadRank s.data.threadDone (s.thread .thread).status (s.thread .thread).pc := by
      cases (s.thread .thread).pc with
      | retest => cases (s.thread .thread).status <;> simp [threadRank] <;> split_ifs <;> omega
      | _ => simp [threadRank]
    simp [measure,hlive,mainRank]
    omega
  | mainBroadcast =>
    rw [hpc] at hs hmain
    cases hs
    have hrank : threadRank 2 (s.thread .thread).status.wakened (s.thread .thread).pc ≤
        threadRank 2 (s.thread .thread).status (s.thread .thread).pc := by
      cases (s.thread .thread).pc with
      | retest => cases (s.thread .thread).status <;> simp [threadRank,Status.wakened]
      | _ => simp [threadRank]
    simp [measure,hlive,mainRank,hmain.2.1,System.wakeAll]
    omega
  | mainUnlock =>
    simp only [hpc,code,System.execute] at hs
    split at hs
    · cases hs
      simp [measure,hlive,mainRank_checkFrom]
      simp [mainRank]
    · cases hs
  | check c rest =>
    simp only [hpc,code,System.execute] at hs
    cases hf : c.failure p s.data with
    | none =>
      simp only [hf] at hs
      cases hs
      simp [measure,hlive,mainRank_checkFrom]
      simp [mainRank]
    | some msg =>
      simp only [hf] at hs
      cases hs
      simp [measure,mainRank]
      omega
  | succeed =>
    rw [hpc] at hs
    cases hs
    simp [measure,mainRank]
  | _ =>
    rw [hpc] at hmain
    exact hmain.elim

/-- Only a wake-up that nobody caused gives the threads more to do. -/
def TlsEvent.credit : TlsEvent → Nat
  | .sys (.wake _) => 4
  | _ => 0

theorem threadRank_woken (done : Int) (k : Pc) (st : Status) :
    threadRank done .woken k ≤ threadRank done st k + 3 := by
  cases k with
  | retest => cases st <;> simp only [threadRank] <;> grind
  | _ => simp [threadRank]

theorem mainRank_woken (done : Int) (k : Pc) (st : Status) :
    mainRank p done .woken k ≤ mainRank p done st k + 3 := by
  cases k with
  | test => cases st <;> simp only [mainRank] <;> grind
  | _ => simp [mainRank]

/-- A woken thread is at a place behind a wait, where taking the mutex is one step less. -/
theorem threadRank_running {d : Data} {k kt : Pc} (h : ThreadAt p d k .woken kt) :
    threadRank d.threadDone .running kt + 1 = threadRank d.threadDone .woken kt := by
  cases kt with
  | retest => simp only [threadRank]; grind
  | _ => simp_all [ThreadAt]

theorem mainRank_running {d : Data} {o : Thread Pc} {k : Pc} (h : MainAt p d o .woken k) :
    mainRank p d.threadDone .running k + 1 = mainRank p d.threadDone .woken k := by
  cases k with
  | test => simp only [mainRank]; grind
  | _ => simp_all [MainAt]

theorem measure_step {e : TlsEvent} (h : Handshake p s) (hs : tlsStep p s e = some s') :
    measure p s' + 1 ≤ measure p s + e.credit := by
  unfold tlsStep at hs
  split at hs
  case isTrue => cases hs
  case isFalse hstop =>
  have hlive : s.data.stop = none := by simpa using hstop
  cases e with
  | sys e =>
    cases e with
    | run w =>
      simp only [System.step] at hs
      split at hs
      case h_1 hst =>
        cases w with
        | main => exact measure_execute_main h hlive hst hs
        | thread => exact measure_execute_thread h hlive hst hs
      case h_2 hst =>
        split at hs
        · cases hs
          rw [measure_live hlive]
          cases w with
          | main =>
            have hrank := mainRank_running (hst ▸ h.main)
            simp [measure,hlive,hst]
            omega
          | thread =>
            have hrank := threadRank_running (hst ▸ h.thread)
            simp [measure,hlive,hst]
            omega
        · cases hs
      case h_3 => cases hs
    | wake w =>
      simp only [System.step] at hs
      split at hs
      case h_1 hst =>
        cases hs
        rw [measure_live hlive]
        cases w with
        | main =>
          have hrank := mainRank_woken (p := p) s.data.threadDone (s.thread .main).pc .waiting
          simp [measure,hlive,hst,TlsEvent.credit]
          omega
        | thread =>
          have hrank := threadRank_woken s.data.threadDone (s.thread .thread).pc .waiting
          simp [measure,hlive,hst,TlsEvent.credit]
          omega
      case h_2 => cases hs
  | fails w error =>
    have hpos := measure_pos h hlive
    simp only at hs
    split at hs
    · split at hs
      · cases hs
      · cases hs
        simp [measure] at hpos ⊢
        omega
    · split at hs
      · cases hs
      · cases hs
        simp [measure] at hpos ⊢
        omega
    · cases hs

end Measure

section Runs

variable {p : Platform} {locals : Var → Int} {s : TlsState}

/-- Two threads that both wait would have missed a wake-up. -/
theorem Handshake.goes_on (h : Handshake p s) (hlive : s.data.stop = none) :
    ∃ w, (tlsStep p s (.sys (.run w))).isSome := by
  by_contra hnone
  have hstuck : ∀ w, s.step (code p) (.run w) = none := by
    intro w
    have hw : ¬ (tlsStep p s (.sys (.run w))).isSome := fun hw => hnone ⟨w,hw⟩
    simpa [tlsStep,hlive] using hw
  have hmain := h.main
  have hthread := h.thread
  have hspawn : ∀ t u k, (s.thread t).status = .running →
      code p t (s.thread t).pc = .spawn u k → (s.thread u).status = .unborn := by
    intro t u k _ hi
    cases t with
    | main =>
      cases hpc : (s.thread .main).pc <;> rw [hpc] at hi hmain <;> cases hi
      exact hmain.2.2
    | thread =>
      cases hpc : (s.thread .thread).pc <;> rw [hpc] at hi hthread <;> cases hi
      exact hthread.elim
  have hends := h.sound.stuck (code_disciplined p) hspawn hstuck
  have hm := hends .main
  have ht := hends .thread
  cases hpc : (s.thread .main).pc with
  | test =>
    rw [hpc] at hmain hm
    have hwait : (s.thread .main).status = .waiting := by
      rcases hm with hm | hm | ⟨-,hm⟩
      · exact absurd hm hmain.1
      · exact hm
      · cases hm
    have hzero := hmain.2.1
    cases hpc' : (s.thread .thread).pc <;> rw [hpc'] at hthread ht <;> simp_all [MainAt,ThreadAt,code]
  | _ =>
    rw [hpc] at hmain hm
    simp_all [MainAt,code]

theorem measure_start (p : Platform) (locals : Var → Int) :
    measure p (tlsStart p locals) = 3*(vars p).length+(checks p).length+21 := by
  have hvars : ∃ v rest, vars p = v :: rest := by
    unfold vars
    split_ifs <;> exact ⟨_,_,rfl⟩
  obtain ⟨v,rest,hvars⟩ := hvars
  simp [measure,tlsStart,hvars,publishFrom,threadRank,mainRank]
  omega

/-- The addresses that a capability gives access to. -/
def TlsPtr.addresses (q : TlsPtr) : Set Nat :=
  {a | q.base.toNat ≤ a ∧ a < q.base.toNat+q.length.toNat}

/-- The variables of the two threads are apart, and where the bounds are exact each
capability is for its variable only. -/
structure WellPlaced (p : Platform) : Prop where
  apart : p.purecap = true → ∀ v ∈ vars p,
    Disjoint (p.pointer .main v).addresses (p.pointer .thread v).addresses
  exact : p.purecap = true → p.exactBounds = true → ∀ w, ∀ v ∈ vars p,
    (p.pointer w v).offset = 0 ∧ (p.pointer w v).length = UInt64.ofNat sizeofInt

theorem overlapping_iff {my thr : TlsPtr} (hmy : 0 < my.length.toNat)
    (hmy' : my.base.toNat+my.length.toNat < 2^64) (hthr : 0 < thr.length.toNat)
    (hthr' : thr.base.toNat+thr.length.toNat < 2^64) :
    overlapping my thr = true ↔ ¬ Disjoint my.addresses thr.addresses := by
  have htop : my.top.toNat = my.base.toNat+my.length.toNat := by
    simp only [TlsPtr.top,UInt64.toNat_add]
    omega
  have htop' : thr.top.toNat = thr.base.toNat+thr.length.toNat := by
    simp only [TlsPtr.top,UInt64.toNat_add]
    omega
  have hshare : ¬ Disjoint my.addresses thr.addresses ↔
      my.base.toNat < thr.base.toNat+thr.length.toNat ∧
        thr.base.toNat < my.base.toNat+my.length.toNat := by
    rw [Set.not_disjoint_iff]
    constructor
    · rintro ⟨a,⟨ha,ha'⟩,hb,hb'⟩
      omega
    · rintro ⟨h,h'⟩
      refine ⟨max my.base.toNat thr.base.toNat,⟨?_,?_⟩,?_,?_⟩ <;> omega
  rw [hshare]
  simp only [overlapping,Bool.or_eq_true,Bool.and_eq_true,decide_eq_true_eq,UInt64.le_iff_toNat_le,
    UInt64.lt_iff_toNat_lt,htop,htop']
  omega

theorem disjoint_mem_checks {v : Var} :
    .disjoint v ∈ checks p ↔ p.purecap = true ∧ v ∈ vars p := by
  unfold checks
  split_ifs <;> simp_all

theorem bounds_mem_checks {w : Who} {v : Var} :
    .bounds w v ∈ checks p ↔ p.purecap = true ∧ p.exactBounds = true ∧ v ∈ vars p := by
  unfold checks vars
  split_ifs <;> cases w <;> cases v <;> simp_all

theorem bounds_failure_iff {d : Data} {w : Who} {v : Var} :
    (Check.bounds w v).failure p d = none ↔
      (p.pointer w v).offset = 0 ∧ (p.pointer w v).length = UInt64.ofNat sizeofInt := by
  simp only [Check.failure]
  split_ifs <;> simp_all

theorem wellPlaced_iff
    (hp : ∀ w v, 0 < (p.pointer w v).length.toNat ∧
      (p.pointer w v).base.toNat+(p.pointer w v).length.toNat < 2^64) (d : Data) :
    WellPlaced p ↔ ∀ c ∈ checks p, c.IsPlacement → c.failure p d = none := by
  have hapart : ∀ v, (Check.disjoint v).failure p d = none ↔
      Disjoint (p.pointer .main v).addresses (p.pointer .thread v).addresses := by
    intro v
    have hiff := overlapping_iff (hp .main v).1 (hp .main v).2 (hp .thread v).1 (hp .thread v).2
    simp only [Check.failure]
    split_ifs with hover
    · simpa using hiff.mp hover
    · simpa using mt hiff.mpr hover
  constructor
  · intro h c hc hplace
    cases c with
    | mine v => exact hplace.elim
    | theirs v => exact hplace.elim
    | disjoint v =>
      obtain ⟨hcap,hv⟩ := disjoint_mem_checks.mp hc
      exact (hapart v).mpr (h.apart hcap v hv)
    | bounds w v =>
      obtain ⟨hcap,hexact,hv⟩ := bounds_mem_checks.mp hc
      exact bounds_failure_iff.mpr (h.exact hcap hexact w v hv)
  · intro h
    refine ⟨fun hcap v hv => ?_,fun hcap hexact w v hv => ?_⟩
    · exact (hapart v).mp (h _ (disjoint_mem_checks.mpr ⟨hcap,hv⟩) trivial)
    · exact bounds_failure_iff.mp (h _ (bounds_mem_checks.mpr ⟨hcap,hexact,hv⟩) trivial)

theorem tlsStep_calm {s' : TlsState} {e : Event Who} (hs : tlsStep p s (.sys e) = some s')
    {error : Int} {what : CString} : s'.data.stop ≠ some (.errc error what) := by
  unfold tlsStep at hs
  split at hs
  case isTrue => cases hs
  case isFalse hstop =>
  have hlive : s.data.stop = none := by simpa using hstop
  rcases System.step_data hs with hd | ⟨t,f,hf,hd⟩
  · simp [hd,hlive]
  · rw [hd]
    cases hpc : (s.thread t).pc with
    | copy v rest =>
      rw [hpc] at hf
      cases hf
      simp only
      split <;> simp [hlive]
    | check c rest =>
      rw [hpc] at hf
      cases hf
      simp only
      split <;> simp [hlive]
    | _ =>
      rw [hpc] at hf
      cases hf
      try simp [hlive,Data.set]

/-- The main thread reads the variables of the other thread while they are there and have
been counted up, and it never reports a value. -/
theorem tls_threads_safe (p : Platform) (locals : Var → Int) {s : TlsState}
    (h : Reached (tlsStep p) (fun _ _ => True) (tlsStart p locals) s) :
    (∀ v rest, (s.thread .main).pc = .copy v rest →
      s.data.deref v = some (v.init+1)) ∧ ∀ st, s.data.stop = some st → Allowed p st := by
  have hs := Handshake.reached h
  refine ⟨fun v rest hpc => ?_,hs.stop⟩
  have hmain := hs.main
  rw [hpc] at hmain
  obtain ⟨hthr,hended,htls⟩ := hs.deref hmain.2.1 hmain.2.2.2.1
  simp [Data.deref,hthr,hended,htls]

def plainPlatform : Platform where
  dynamicTests := false
  purecap := true
  exactBounds := true
  pointer
    | .main,.ie => ⟨0x41000,4,0⟩
    | .main,_ => ⟨0x41004,4,0⟩
    | .thread,.ie => ⟨0x42000,4,0⟩
    | .thread,_ => ⟨0x42004,4,0⟩
  sharpP _ := cstr "0x41000"

def runs (w : Who) (n : Nat) : List TlsEvent := List.replicate n (.sys (.run w))

/-- The main thread waits before the other one starts, up to its first copy. -/
def mainWaits : List TlsEvent := runs .main 4 ++ runs .thread 8 ++ runs .main 2

theorem tls_threads_safe_mainWaits : ∃ s : TlsState,
    Reached (tlsStep plainPlatform) (fun _ _ => True) (tlsStart plainPlatform fun _ => 0) s ∧
      s.data.deref .ie = some 4 :=
  have h := Reached.of_foldlM mainWaits .start rfl
  ⟨_,h,(tls_threads_safe plainPlatform (fun _ => 0) h).1 .ie [.le] rfl⟩

/-- Every schedule comes to a report, and only spurious wake-ups can delay it. -/
theorem tls_threads_ends (p : Platform) (locals : Var → Int) (es : List TlsEvent) {s : TlsState}
    (h : es.foldlM (tlsStep p) (tlsStart p locals) = some s) :
    (s.data.stop = none → ∃ w, (tlsStep p s (.sys (.run w))).isSome) ∧
      es.length ≤ 3*(vars p).length+(checks p).length+21+(es.map TlsEvent.credit).sum := by
  constructor
  · intro hlive
    exact (Handshake.reached (.of_foldlM es .start h)).goes_on hlive
  · have hlength := length_le_of_credit (Handshake p) (measure p) TlsEvent.credit
      (fun _ _ _ hs hstep => hs.step hstep) (fun _ _ _ hs hstep => measure_step hs hstep) es
      (.start p locals) h
    rw [measure_start] at hlength
    omega

theorem tls_threads_ends_mainWaits : ∃ s : TlsState,
    mainWaits.foldlM (tlsStep plainPlatform) (tlsStart plainPlatform fun _ => 0) = some s ∧
      ∃ w, (tlsStep plainPlatform s (.sys (.run w))).isSome :=
  ⟨_,rfl,(tls_threads_ends plainPlatform (fun _ => 0) mainWaits rfl).1 rfl⟩

/-- Where no call fails the report is about where the variables are, whatever the schedule. -/
theorem tls_threads_verdict (p : Platform) (locals : Var → Int)
    (hp : ∀ w v, 0 < (p.pointer w v).length.toNat ∧
      (p.pointer w v).base.toNat+(p.pointer w v).length.toNat < 2^64) {s : TlsState}
    (h : Reached (tlsStep p) (fun _ e => ∃ e', e = .sys e') (tlsStart p locals) s) {st : Stop}
    (hst : s.data.stop = some st) : st = .success ↔ WellPlaced p := by
  have hcalm : ∀ error what, s.data.stop ≠ some (.errc error what) := by
    refine h.invariant (fun s => ∀ error what, s.data.stop ≠ some (.errc error what)) ?_ ?_
    · intro error what hnone
      cases hnone
    · rintro s e s' - ⟨e',rfl⟩ hs error what
      exact tlsStep_calm hs
  have hallowed := (Handshake.reached h).stop st hst
  rw [wellPlaced_iff hp s.data]
  cases st with
  | success => simpa using fun c hc hplace => hallowed c hc hplace s.data
  | errx msg =>
    obtain ⟨c,hc,hplace,hmsg⟩ := hallowed
    simp only [reduceCtorEq,false_iff]
    intro hnone
    have hnone := hnone c hc hplace
    rw [hmsg] at hnone
    cases hnone
  | errc error what => exact absurd hst (hcalm error what)
  | fault => exact hallowed.elim

theorem tls_threads_verdict_plainPlatform : ∃ s : TlsState,
    Reached (tlsStep plainPlatform) (fun _ e => ∃ e', e = .sys e')
      (tlsStart plainPlatform fun _ => 0) s ∧
      s.data.stop = some .success ∧ WellPlaced plainPlatform := by
  have hcalm : ∀ e ∈ mainWaits ++ runs .main 16, ∃ e', e = TlsEvent.sys e' := by
    simp [mainWaits,runs]
  obtain ⟨s,hs,hstop⟩ : ∃ s : TlsState, (mainWaits ++ runs .main 16).foldlM (tlsStep plainPlatform)
      (tlsStart plainPlatform fun _ => 0) = some s ∧ s.data.stop = some .success := ⟨_,rfl,rfl⟩
  have h : Reached (tlsStep plainPlatform) (fun _ e => ∃ e', e = .sys e')
      (tlsStart plainPlatform fun _ => 0) s :=
    .of_foldlM_ok _ (fun e he _ => hcalm e he) .start hs
  refine ⟨s,h,hstop,(tls_threads_verdict plainPlatform (fun _ => 0) ?_ h hstop).mp rfl⟩
  intro w v
  cases w <;> cases v <;> decide

end Runs

end CheriOsTest.TlsThreads
