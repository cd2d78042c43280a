import CheriOsTest.Reports
set_option autoImplicit false

/-! Revocation with concurrent forks. A thread of the test forks children in a loop until
the main thread tells it to stop; thread, children and main thread share the result page. -/

namespace CheriOsTest.AsyncFork
open CheriOsTest.CStrings CheriOsTest.Programs CheriOsTest.Harness

/-- Where a process is in `forker`; `child` is what `fork` returned to it. -/
inductive Forker where
  | loop
  | fork
  | verify (child : Int)
  | branch (child : Int)
  | waitpid (child : Int)
  | failing (todo : List Store)
  | exited (status : WaitStatus)
  | returned

def exSoftware : WaitStatus := .exited (.ofNat EX_SOFTWARE)

def forkFailedStores : List Store := failureErrxStores (some (cstr "fork failed"))

/-- A step behind `fork` and what it stores. Parent and child run the same code. -/
def Forker.next : Forker → Option (Forker × Option Store)
  | .verify child =>
    if child > 0 then some (.branch child,none) else some (.failing forkFailedStores,none)
  | .branch child =>
    if child = 0 then some (.exited (.exited 0),none) else some (.waitpid child,none)
  | .failing (st :: todo) => some (.failing todo,some st)
  | .failing [] => some (.exited exSoftware,none)
  | _ => none

inductive MainThread where
  | testing
  | joining
  | reporting (r : Report) (todo : List Store)
  | ended (r : Report)

structure Child where
  pid : Int
  pc : Forker

/-- `stored` keeps what the forker and its children have stored. -/
structure AsyncState where
  page : ChildState
  forkerRes : Bool
  main : MainThread
  forker : Forker
  children : List Child
  stored : List Store

inductive Event where
  | setForkerRes : Event
  | report : Report → Event
  | store : Event
  | exit : Event
  | loop : Event
  | fork : Int → Event
  | forker : Event
  | waitpid : Bool → Event
  | child : Nat → Event

namespace AsyncState

def start : AsyncState := ⟨.zeroed,false,.testing,.loop,[],[]⟩

def processEnded (s : AsyncState) : Bool :=
  match s.main,s.forker with
  | .ended _,_ => true
  | _,.exited _ => true
  | _,_ => false

def storing (s : AsyncState) : Option Store → AsyncState
  | none => s
  | some st => { s with page := st.apply s.page, stored := s.stored ++ [st] }

def hasEnded (s : AsyncState) (pid : Int) : Bool :=
  s.children.any fun c => c.pid = pid && match c.pc with | .exited _ => true | _ => false

def threadStep (abi : Abi) (s : AsyncState) : Event → Option AsyncState
  | .setForkerRes =>
    match s.main with
    | .testing => some { s with forkerRes := true, main := .joining }
    | _ => none
  | .report r =>
    match r,s.main,s.forker with
    | .success,.joining,.returned => some { s with main := .reporting .success successStores }
    | .success,_,_ => none
    | r,.testing,_ => some { s with main := .reporting r (r.stores abi) }
    | r,.joining,_ => some { s with main := .reporting r (r.stores abi) }
    | _,_,_ => none
  | .store =>
    match s.main with
    | .reporting r (st :: todo) =>
      some { s with page := st.apply s.page, main := .reporting r todo }
    | _ => none
  | .exit =>
    match s.main with
    | .reporting r [] => some { s with main := .ended r }
    | _ => none
  | .loop =>
    match s.forker with
    | .loop => some { s with forker := if s.forkerRes then .returned else .fork }
    | _ => none
  | .fork ret =>
    match s.forker with
    | .fork =>
      if 0 < ret then
        some { s with forker := .verify ret, children := s.children ++ [⟨ret,.verify 0⟩] }
      else if ret = -1 then some { s with forker := .verify ret }
      else none
    | _ => none
  | .forker => s.forker.next.map fun (pc,st) => { s.storing st with forker := pc }
  | .waitpid interrupted =>
    match s.forker with
    | .waitpid pid =>
      if interrupted || s.hasEnded pid then some { s with forker := .loop } else none
    | _ => none
  | .child _ => none

def step (abi : Abi) (s : AsyncState) : Event → Option AsyncState
  | .child i => do
    let c ← s.children[i]?
    let (pc,st) ← c.pc.next
    let s := s.storing st
    pure { s with children := s.children.set i { c with pc := pc } }
  | e => if s.processEnded then none else s.threadStep abi e

/-- Forker and children have stored nothing, and the children that ended did so with 0. -/
def Clean (s : AsyncState) : Prop :=
  s.stored = [] ∧ ∀ c ∈ s.children, ∀ status, c.pc = .exited status → status = .exited 0

end AsyncState

def Event.ForkSucceeds : Event → Prop
  | .fork ret => 0 < ret
  | _ => True

def Event.Forks : Event → Prop
  | .fork _ => True
  | _ => False

section Steps

variable {abi : Abi} {s s' : AsyncState} {e : Event}

theorem storing_eq (st : Option Store) : (s.storing st).forker = s.forker ∧
    (s.storing st).children = s.children ∧ (s.storing st).stored = s.stored ++ st.toList := by
  cases st with
  | none => exact ⟨rfl,rfl,(List.append_nil _).symm⟩
  | some st => exact ⟨rfl,rfl,rfl⟩

/-- What a step does to the forker, its children and their stores: nothing when the main
thread moves, and else one of the moves of `forker`. -/
inductive Moved (s s' : AsyncState) : Event → Prop where
  | aside {e : Event} : s'.forker = s.forker → s'.children = s.children → s'.stored = s.stored →
      Moved s s' e
  | around {e : Event} : (s'.forker = .loop ∨ s'.forker = .fork ∨ s'.forker = .returned) →
      s'.children = s.children → s'.stored = s.stored → Moved s s' e
  | fork {ret : Int} : s'.forker = .verify ret →
      s'.children = s.children ++ (if 0 < ret then [⟨ret,.verify 0⟩] else []) →
      s'.stored = s.stored → Moved s s' (.fork ret)
  | forker {e : Event} {pc : Forker} {st : Option Store} : s.forker.next = some (pc,st) →
      s'.forker = pc → s'.children = s.children → s'.stored = s.stored ++ st.toList → Moved s s' e
  | child {i : Nat} {c : Child} {pc : Forker} {st : Option Store} : s.children[i]? = some c →
      c.pc.next = some (pc,st) → s'.forker = s.forker →
      s'.children = s.children.set i { c with pc := pc } → s'.stored = s.stored ++ st.toList →
      Moved s s' (.child i)

theorem threadStep_moved (h : s.threadStep abi e = some s') : Moved s s' e := by
  cases e with
  | setForkerRes | report | store | exit =>
    simp only [AsyncState.threadStep] at h
    split at h <;> cases h <;> exact .aside rfl rfl rfl
  | loop =>
    simp only [AsyncState.threadStep] at h
    split at h <;> cases h
    refine .around (.inr ?_) rfl rfl
    cases s.forkerRes
    · exact .inl rfl
    · exact .inr rfl
  | fork ret =>
    simp only [AsyncState.threadStep] at h
    split at h
    · split_ifs at h with hpos hfail <;> cases h
      · exact .fork rfl (by rw [if_pos hpos]) rfl
      · exact .fork rfl (by rw [if_neg hpos,List.append_nil]) rfl
    · cases h
  | forker =>
    obtain ⟨⟨pc,st⟩,hnext,rfl⟩ := Option.map_eq_some_iff.mp h
    obtain ⟨-,hchildren,hstored⟩ := storing_eq (s := s) st
    exact .forker hnext rfl hchildren hstored
  | waitpid b =>
    simp only [AsyncState.threadStep] at h
    split at h
    · split_ifs at h
      cases h
      exact .around (.inl rfl) rfl rfl
    · cases h
  | child i => cases h

theorem step_moved (h : s.step abi e = some s') : Moved s s' e := by
  cases e with
  | child i =>
    simp only [AsyncState.step,Option.bind_eq_bind,Option.bind_eq_some_iff] at h
    obtain ⟨c,hc,⟨pc,st⟩,hnext,hs'⟩ := h
    obtain ⟨hforker,hchildren,hstored⟩ := storing_eq (s := s) st
    cases hs'
    exact .child hc hnext hforker (by rw [hchildren]) hstored
  | _ =>
    simp only [AsyncState.step] at h
    split_ifs at h
    exact threadStep_moved h

/-- The invariant of runs without a fork. -/
structure Idle (s : AsyncState) : Prop where
  forker : s.forker = .loop ∨ s.forker = .fork ∨ s.forker = .returned
  children : s.children = []
  stored : s.stored = []

theorem Idle.start : Idle .start := ⟨.inl rfl,rfl,rfl⟩

theorem Idle.step (hi : Idle s) (he : ¬ e.Forks) (h : s.step abi e = some s') : Idle s' := by
  cases step_moved h with
  | aside hf hc hs => exact ⟨hf ▸ hi.forker,hc.trans hi.children,hs.trans hi.stored⟩
  | around hf hc hs => exact ⟨hf,hc.trans hi.children,hs.trans hi.stored⟩
  | fork => exact absurd trivial he
  | forker hnext =>
    rcases hi.forker with hf | hf | hf <;> rw [hf] at hnext <;> cases hnext
  | child hchild =>
    rw [hi.children] at hchild
    cases hchild

/-- Where a child can be: on its way from the check that fails to the exit behind it. -/
def Forker.Doomed : Forker → Prop
  | .verify child => child = 0
  | .failing _ => True
  | .exited status => status = exSoftware
  | _ => False

/-- Where the forker itself can be while its forks succeed. -/
def Forker.Sound : Forker → Prop
  | .verify child | .branch child => 0 < child
  | .failing _ | .exited _ => False
  | _ => True

theorem Forker.Doomed.next {pc pc' : Forker} {st : Option Store} (hd : pc.Doomed)
    (h : pc.next = some (pc',st)) : pc'.Doomed := by
  cases pc with
  | verify child =>
    rw [show child = 0 from hd] at h
    cases h
    trivial
  | failing todo =>
    cases todo with
    | nil =>
      cases h
      rfl
    | cons st todo =>
      cases h
      trivial
  | exited status => cases h
  | _ => exact hd.elim

theorem Forker.Sound.next {pc pc' : Forker} {st : Option Store} (hs : pc.Sound)
    (h : pc.next = some (pc',st)) : pc'.Sound ∧ st = none := by
  cases pc with
  | verify child =>
    rw [Forker.next,if_pos (show child > 0 from hs)] at h
    cases h
    exact ⟨hs,rfl⟩
  | branch child =>
    rw [Forker.next,if_neg (ne_of_gt hs)] at h
    cases h
    exact ⟨trivial,rfl⟩
  | failing todo => exact hs.elim
  | exited status => exact hs.elim
  | _ => cases h

structure Dooms (s : AsyncState) : Prop where
  forker : s.forker.Sound
  children : ∀ c ∈ s.children, c.pc.Doomed

theorem Dooms.start : Dooms .start :=
  ⟨show Forker.Sound .loop from trivial,fun _ hmem => absurd hmem List.not_mem_nil⟩

theorem Dooms.step (hd : Dooms s) (he : e.ForkSucceeds) (h : s.step abi e = some s') : Dooms s' := by
  cases step_moved h with
  | aside hf hc => exact ⟨hf ▸ hd.forker,hc ▸ hd.children⟩
  | around hf hc =>
    refine ⟨?_,hc ▸ hd.children⟩
    rcases hf with hf | hf | hf <;> rw [hf] <;> trivial
  | @fork ret hf hc =>
    rw [if_pos (show 0 < ret from he)] at hc
    refine ⟨hf ▸ he,fun c hmem => ?_⟩
    rw [hc,List.mem_append,List.mem_singleton] at hmem
    rcases hmem with hmem | rfl
    · exact hd.children c hmem
    · exact rfl
  | forker hnext hf hc => exact ⟨hf ▸ (hd.forker.next hnext).1,hc ▸ hd.children⟩
  | @child i c pc st hchild hnext hf hc =>
    refine ⟨hf ▸ hd.forker,fun c' hmem => ?_⟩
    rw [hc] at hmem
    rcases List.mem_or_eq_of_mem_set hmem with hmem | rfl
    · exact hd.children c' hmem
    · exact (hd.children c (List.mem_of_getElem? hchild)).next hnext

theorem child_moves (abi : Abi) {i : Nat} {c : Child} {pc : Forker} {st : Option Store}
    (hc : s.children[i]? = some c) (hnext : c.pc.next = some (pc,st)) :
    ∃ s', s.step abi (.child i) = some s' ∧ s'.children[i]? = some { c with pc := pc } := by
  obtain ⟨hi,-⟩ := List.getElem?_eq_some_iff.mp hc
  refine ⟨{ s.storing st with children := (s.storing st).children.set i { c with pc := pc } },?_,?_⟩
  · simp only [AsyncState.step,hc,hnext,Option.bind_eq_bind,Option.bind_some]
    rfl
  · rw [(storing_eq st).2.1,List.getElem?_set_self hi]

def Event.OfChild : Event → Prop
  | .child _ => True
  | _ => False

theorem Event.ofChild (i : Nat) : (Event.child i).OfChild := trivial

theorem failing_exits {s₀ : AsyncState} {i : Nat} {pid : Int} {todo : List Store}
    (hs : Reached (AsyncState.step abi) (fun _ e => e.OfChild) s₀ s)
    (hc : s.children[i]? = some ⟨pid,.failing todo⟩) :
    ∃ s', Reached (AsyncState.step abi) (fun _ e => e.OfChild) s₀ s' ∧
      s'.children[i]? = some ⟨pid,.exited exSoftware⟩ := by
  induction todo generalizing s with
  | nil =>
    obtain ⟨s',hstep,hc'⟩ := child_moves abi hc rfl
    exact ⟨s',hs.next (Event.ofChild i) hstep,hc'⟩
  | cons st todo ih =>
    obtain ⟨s₁,hstep,hc₁⟩ := child_moves abi hc rfl
    exact ih (hs.next (Event.ofChild i) hstep) hc₁

theorem doomed_exits (abi : Abi) {i : Nat} {c : Child} (hc : s.children[i]? = some c) (hd : c.pc.Doomed) :
    ∃ s', Reached (AsyncState.step abi) (fun _ e => e.OfChild) s s' ∧
      s'.children[i]? = some ⟨c.pid,.exited exSoftware⟩ := by
  obtain ⟨pid,pc⟩ := c
  cases pc with
  | verify child =>
    rw [show child = 0 from hd] at hc
    obtain ⟨s₁,hstep,hc₁⟩ := child_moves abi hc rfl
    exact failing_exits (.next .start (Event.ofChild i) hstep) hc₁
  | failing todo => exact failing_exits .start hc
  | exited status =>
    rw [show status = exSoftware from hd] at hc
    exact ⟨s,.start,hc⟩
  | _ => exact hd.elim

theorem not_clean_of_exited {c : Child} (hmem : c ∈ s.children)
    (hc : c.pc = .exited exSoftware) : ¬ s.Clean := by
  intro hclean
  exact absurd (hclean.2 c hmem exSoftware hc) (by decide)

/-- A run without a fork keeps the result clean, and no other does: each child that is
ever forked ends with the status of a failure, or is on its way there. -/
theorem forker_clean_iff (abi : Abi) :
    (∀ s, Reached (AsyncState.step abi) (fun _ e => ¬ e.Forks) .start s → s.Clean) ∧
    ∀ s, Reached (AsyncState.step abi) (fun _ e => e.ForkSucceeds) .start s →
      ∀ (i : Nat) (c : Child), s.children[i]? = some c →
        (∀ status, c.pc = .exited status → status = exSoftware) ∧
        ∃ s', Reached (AsyncState.step abi) (fun _ e => e.OfChild) s s' ∧ ¬ s'.Clean := by
  refine ⟨fun s hs => ?_,fun s hs i c hc => ?_⟩
  · have hidle : Idle s := hs.invariant Idle Idle.start
      fun _ _ _ hi he hstep => hi.step he hstep
    refine ⟨hidle.stored,fun c hmem => ?_⟩
    rw [hidle.children] at hmem
    exact absurd hmem List.not_mem_nil
  · have hdooms : Dooms s := hs.invariant Dooms Dooms.start
      fun _ _ _ hd he hstep => hd.step he hstep
    have hd := hdooms.children c (List.mem_of_getElem? hc)
    constructor
    · intro status hst
      rw [hst] at hd
      exact hd
    · obtain ⟨s',hs',hc'⟩ := doomed_exits abi hc hd
      exact ⟨s',hs',not_clean_of_exited (List.mem_of_getElem? hc') rfl⟩

theorem child_reports_failure : ∃ s, Reached (AsyncState.step ⟨.freeBSD,true⟩)
      (fun _ e => e.ForkSucceeds) .start s ∧ ¬ s.Clean ∧
    s.page.ccsTestresult = TESTRESULT_FAILURE ∧ s.hasEnded 101 := by
  let events : List Event := [.loop,.fork 101,.child 0,.child 0,.child 0,.child 0,.child 0]
  refine ⟨_,Reached.of_foldlM_ok events ?_ .start rfl,?_,rfl,rfl⟩
  · simp [events,Event.ForkSucceeds]
  · exact not_clean_of_exited (List.head_mem (List.cons_ne_nil _ _)) rfl

end Steps

end CheriOsTest.AsyncFork
