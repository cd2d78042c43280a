import CheriOsTest.ChildState
import CheriOsTest.Programs
set_option autoImplicit false

/-! The test of `memcpy`. The function under test fills one structure again and again,
and what it has left there is checked over a range of the padding. -/

namespace CheriOsTest.StringTests
open CheriOsTest.CStrings CheriOsTest.Programs CheriOsTest.Harness

structure Test where
  pad0 : Vector UInt8 32
  y : Pointer
  pad1 : Vector UInt8 32

/-- With capabilities of 16 bytes. -/
abbrev sizeofTest : Nat := 80

inductive Cell where
  | pad0 (i : Fin 32)
  | y
  | pad1 (i : Fin 32)
  deriving DecidableEq

inductive Content where
  | pad0 (i : Fin 32) (b : UInt8)
  | y (p : Pointer)
  | pad1 (i : Fin 32) (b : UInt8)
  deriving DecidableEq

def Content.cell : Content → Cell
  | .pad0 i _ => .pad0 i
  | .y _ => .y
  | .pad1 i _ => .pad1 i

namespace Test

def content (t : Test) : Cell → Content
  | .pad0 i => .pad0 i t.pad0[i]
  | .y => .y t.y
  | .pad1 i => .pad1 i t.pad1[i]

def put (t : Test) : Content → Test
  | .pad0 i b => { t with pad0 := t.pad0.set i b }
  | .y p => { t with y := p }
  | .pad1 i b => { t with pad1 := t.pad1.set i b }

def putAll (t : Test) (stores : List Content) : Test := stores.foldl put t

end Test

/-- The loop counts over the structure, but every round stores through `x` itself. -/
def invalidate (t1 : Test) : Test :=
  (List.range sizeofTest).foldl (fun t _ => t.put (.pad0 0 0xa5)) t1

def checkMessage (start stop : Nat) (what : CString) : CString :=
  cstr "(start = " ++ fmtD start ++ cstr ", end " ++ fmtD stop ++ cstr ") t1->" ++ what

def notEqual (array : String) (i v : Nat) : CString :=
  cstr array ++ cstr "[" ++ fmtD i ++ cstr "] != " ++ fmtD v

/-- The capabilities are compared by their addresses. -/
def check (expectedY : Pointer) (t1 : Test) (start stop : Fin 33) : Except CString Unit := do
  ((List.finRange 32).filter fun i => start.val ≤ i.val).forM fun i =>
    failIf (t1.pad0[i] ≠ UInt8.ofNat i) (checkMessage start stop (notEqual "pad0" i i))
  failIf (t1.y.address ≠ expectedY.address) (checkMessage start stop (cstr "y != t1"))
  failIf (¬ t1.y.tag) (checkMessage start stop (cstr "y is untagged"))
  ((List.finRange 32).filter fun i => i.val < stop.val).forM fun i =>
    failIf (t1.pad1[i] ≠ UInt8.ofNat i) (checkMessage start stop (notEqual "pad1" i i))

inductive Object where
  | t1
  | t2
  deriving DecidableEq

structure Place where
  object : Object
  offset : Nat
  deriving DecidableEq

structure Memory where
  t1 : Test
  t2 : Test

structure Effect where
  toT1 : List Content
  toT2 : List Content
  ret : Place

abbrev Memcpy := Place → Place → Nat → Memory → Effect

def Memory.after (m : Memory) (e : Effect) : Memory := ⟨m.t1.putAll e.toT1,m.t2.putAll e.toT2⟩

/-- A copy of `len` bytes from one offset of `t1` to the same of `t2`, with the range checked. -/
structure Copy where
  off : Nat
  len : Nat
  start : Fin 33
  stop : Fin 33
  message : CString

def copies : List Copy :=
  [⟨0,sizeofTest,0,32,cstr "copy != &t2"⟩,
    ⟨3,sizeofTest-3,3,32,cstr "memcpy_c did not return dst (&t2.pad0[3])"⟩,
    ⟨0,sizeofTest-3,0,29,cstr "copy != &t2"⟩,
    ⟨3,sizeofTest-6,3,29,cstr "memcpy_c did not return dst (&t2.pad0[3])"⟩]

def Memory.invalidated (m : Memory) : Memory := { m with t2 := invalidate m.t2 }

/-- What the call for `c` does in the memory that the copy before has left. -/
def effect (memcpy : Memcpy) (m : Memory) (c : Copy) : Effect :=
  memcpy ⟨.t2,c.off⟩ ⟨.t1,c.off⟩ c.len m.invalidated

def copyAndCheck (memcpy : Memcpy) (expectedY : Pointer) (m : Memory) (c : Copy) :
    Except CString Memory := do
  let e := effect memcpy m c
  failIf (e.ret ≠ ⟨.t2,c.off⟩) c.message
  let m := m.invalidated.after e
  check expectedY m.t2 c.start c.stop
  pure m

def shiftEffect (memcpy : Memcpy) (m : Memory) : Effect :=
  memcpy ⟨.t2,0⟩ ⟨.t1,1⟩ (sizeofTest-1) m

/-- The copy whose alignment differs at the two ends. `t2` is not invalidated for it. -/
def shiftAndCheck (memcpy : Memcpy) (m : Memory) : Except CString Unit := do
  let e := shiftEffect memcpy m
  failIf (e.ret ≠ ⟨.t2,0⟩) (cstr "copy != &t2")
  let t2 := (m.after e).t2
  failIf t2.y.tag (cstr "dst has capability after unaligned write")
  ((List.finRange 32).filter fun i => i.val < 31).forM fun i => do
    failIf (t2.pad0[i] ≠ UInt8.ofNat (i+1)) (notEqual "t2.pad0" i (i+1))
    failIf (t2.pad1[i] ≠ UInt8.ofNat (i+1)) (notEqual "t2.pad1" i (i+1))

/-- `CAP(&t2)`. -/
def capT2 (address metadata : UInt64) : Pointer := ⟨true,address,metadata⟩

def fill (capT2 : Pointer) (t1 : Test) : Test :=
  (((List.finRange 32).foldl (fun t i =>
    (t.put (.pad0 i (UInt8.ofNat i))).put (.pad1 i (UInt8.ofNat i))) (invalidate t1))).put (.y capT2)

/-- The test, from what the two structures on its stack happen to hold. -/
def stringMemcpy (memcpy : Memcpy) (capT2 : Pointer) (stack : Memory) : Except CString Unit := do
  let m ← copies.foldlM (copyAndCheck memcpy capT2) { stack with t1 := fill capT2 stack.t1 }
  shiftAndCheck memcpy m

section Contents

variable {t : Test} {x : Cell}

theorem content_put_self (s : Content) : (t.put s).content s.cell = s := by
  cases s <;> simp [Test.put,Test.content,Content.cell]

theorem content_put_of_ne {s : Content} (h : s.cell ≠ x) :
    (t.put s).content x = t.content x := by
  cases s with
  | pad0 i b =>
    cases x with
    | pad0 j =>
      have hij : i.val ≠ j.val := fun hij => h (congrArg Cell.pad0 (Fin.ext hij))
      simp [Test.put,Test.content,Vector.getElem_set_ne _ _ hij]
    | _ => rfl
  | y p =>
    cases x with
    | y => exact absurd rfl h
    | _ => rfl
  | pad1 i b =>
    cases x with
    | pad1 j =>
      have hij : i.val ≠ j.val := fun hij => h (congrArg Cell.pad1 (Fin.ext hij))
      simp [Test.put,Test.content,Vector.getElem_set_ne _ _ hij]
    | _ => rfl

theorem content_putAll_of_forall_ne {ss : List Content} (h : ∀ s ∈ ss, s.cell ≠ x) :
    (t.putAll ss).content x = t.content x := by
  induction ss generalizing t with
  | nil => rfl
  | cons s ss ih =>
    rw [List.forall_mem_cons] at h
    rw [Test.putAll,List.foldl_cons]
    exact (ih h.2).trans (content_put_of_ne h.1)

/-- What holds of every store to a cell holds of its content once there is one. -/
theorem content_putAll {P : Content → Prop} {ss : List Content}
    (hss : ∀ s ∈ ss, s.cell = x → P s) (h : P (t.content x) ∨ ∃ s ∈ ss, s.cell = x) :
    P ((t.putAll ss).content x) := by
  induction ss generalizing t with
  | nil =>
    rcases h with h | ⟨s,hs,-⟩
    · exact h
    · exact absurd hs List.not_mem_nil
  | cons s ss ih =>
    rw [List.forall_mem_cons] at hss
    rw [Test.putAll,List.foldl_cons]
    refine ih hss.2 ?_
    by_cases hs : s.cell = x
    · left
      rw [← hs,content_put_self]
      exact hss.1 hs
    · rw [content_put_of_ne hs]
      refine h.imp_right fun h => ?_
      rw [List.exists_mem_cons_iff] at h
      exact h.resolve_left hs

end Contents

def Content.Right (expectedY : Pointer) : Content → Prop
  | .pad0 i b => b = UInt8.ofNat i
  | .y p => p.address = expectedY.address ∧ p.tag
  | .pad1 i b => b = UInt8.ofNat i

def Test.Right (expectedY : Pointer) (t : Test) (x : Cell) : Prop := (t.content x).Right expectedY

def Checked (start stop : Fin 33) : Cell → Prop
  | .pad0 i => start.val ≤ i.val
  | .y => True
  | .pad1 i => i.val < stop.val

section Check

variable {expectedY : Pointer} {t : Test} {start stop : Fin 33}

theorem check_eq_ok_iff :
    check expectedY t start stop = .ok () ↔ ∀ x, Checked start stop x → t.Right expectedY x := by
  have htag : ¬ ¬ t.y.tag = true ↔ t.y.tag = true := not_not
  simp only [check,bind_unit_eq_ok,forM_eq_ok_iff,failIf_eq_ok,List.mem_filter,List.mem_finRange,
    true_and,decide_eq_true_eq,not_not,htag]
  constructor
  · rintro ⟨h0,ha,ht,h1⟩ (i | _ | i) hx
    · exact h0 i hx
    · exact ⟨ha,ht⟩
    · exact h1 i hx
  · intro h
    exact ⟨fun i => h (.pad0 i),(h .y trivial).1,(h .y trivial).2,fun i => h (.pad1 i)⟩

theorem invalidate_eq : invalidate t = t.put (.pad0 0 0xa5) := by
  have hput : ∀ n, (List.range (n+1)).foldl (fun t _ => t.put (.pad0 0 0xa5)) t =
      t.put (.pad0 0 0xa5) := by
    intro n
    induction n with
    | zero => rfl
    | succ n ih =>
      rw [List.range_succ,List.foldl_append,ih,List.foldl_cons,List.foldl_nil]
      simp [Test.put]
  exact hput _

theorem invalidate_right (x : Cell) :
    (invalidate t).Right expectedY x ↔ x ≠ .pad0 0 ∧ t.Right expectedY x := by
  rw [Test.Right,invalidate_eq]
  by_cases hx : x = .pad0 0
  · subst hx
    rw [show (t.put (.pad0 0 0xa5)).content (.pad0 0) = .pad0 0 0xa5 from content_put_self _]
    constructor
    · intro h
      exact absurd (show (0xa5 : UInt8) = UInt8.ofNat 0 from h) (by decide)
    · intro h
      exact absurd rfl h.1
  · rw [content_put_of_ne (Ne.symm hx)]
    exact (and_iff_right hx).symm

theorem check_invalidate_error_iff :
    (∃ e, check expectedY (invalidate t) start stop = .error e) ↔
      start = 0 ∨ ∃ x, Checked start stop x ∧ ¬ t.Right expectedY x := by
  have hfirst : Checked start stop (.pad0 0) ↔ start = 0 :=
    ⟨fun h => Fin.ext (Nat.le_zero.mp h),fun h => h ▸ Nat.le_refl 0⟩
  rw [unit_eq_error_iff,ne_eq,check_eq_ok_iff]
  simp only [invalidate_right]
  constructor
  · intro h
    push Not at h
    obtain ⟨x,hx,hr⟩ := h
    by_cases hx0 : x = .pad0 0
    · exact .inl (hfirst.mp (hx0 ▸ hx))
    · exact .inr ⟨x,hx,hr hx0⟩
  · rintro (h | ⟨x,hx,hr⟩) hall
    · exact (hall _ (hfirst.mpr h)).1 rfl
    · exact hr (hall x hx).2

end Check

def ReturnsDst (memcpy : Memcpy) : Prop := ∀ dst src n m, (memcpy dst src n m).ret = dst

def Effect.Writes (e : Effect) (x : Cell) : Prop := ∃ s ∈ e.toT2, s.cell = x

/-- The effects of the calls in turn, whether or not a check stops the test between them. -/
def effects (memcpy : Memcpy) : List Copy → Memory → List Effect
  | [],_ => []
  | c :: cs,m => effect memcpy m c :: effects memcpy cs (m.invalidated.after (effect memcpy m c))

def memoryAfter (memcpy : Memcpy) (cs : List Copy) (m : Memory) : Memory :=
  cs.foldl (fun m c => m.invalidated.after (effect memcpy m c)) m

section Run

variable {memcpy : Memcpy} {expectedY : Pointer} {m m' : Memory} {c : Copy}

theorem copyAndCheck_eq_ok_iff :
    copyAndCheck memcpy expectedY m c = .ok m' ↔
      (effect memcpy m c).ret = ⟨.t2,c.off⟩ ∧ m' = m.invalidated.after (effect memcpy m c) ∧
        ∀ x, Checked c.start c.stop x → m'.t2.Right expectedY x := by
  simp only [copyAndCheck,bind_unit_eq_ok,failIf_eq_ok,check_eq_ok_iff,not_not,pure,Except.pure,
    Except.ok.injEq]
  constructor
  · rintro ⟨hret,hcheck,rfl⟩
    exact ⟨hret,rfl,hcheck⟩
  · rintro ⟨hret,rfl,hcheck⟩
    exact ⟨hret,hcheck,rfl⟩

/-- A checked cell that was wrong before the call was written by it. -/
theorem copyAndCheck_writes (h : copyAndCheck memcpy expectedY m c = .ok m') {x : Cell}
    (hx : Checked c.start c.stop x) (hwrong : x = .pad0 0 ∨ ¬ m.t2.Right expectedY x) :
    (effect memcpy m c).Writes x := by
  obtain ⟨-,rfl,hcheck⟩ := copyAndCheck_eq_ok_iff.mp h
  by_contra hw
  have hsame : ((m.invalidated.after (effect memcpy m c)).t2).content x =
      (invalidate m.t2).content x :=
    content_putAll_of_forall_ne fun s hs hsx => hw ⟨s,hs,hsx⟩
  have hright := hcheck x hx
  rw [Test.Right,hsame] at hright
  obtain ⟨hne,hr⟩ := (invalidate_right x).mp hright
  exact hwrong.elim hne fun h => h hr

theorem run_memory {cs : List Copy} (h : cs.foldlM (copyAndCheck memcpy expectedY) m = .ok m') :
    m' = memoryAfter memcpy cs m := by
  induction cs generalizing m with
  | nil =>
    cases h
    rfl
  | cons c cs ih =>
    rw [List.foldlM_cons,bind_eq_ok] at h
    obtain ⟨m₁,h₁,h⟩ := h
    rw [(copyAndCheck_eq_ok_iff.mp h₁).2.1] at h
    exact ih h

theorem run_last (cs : List Copy) (h : (cs ++ [c]).foldlM (copyAndCheck memcpy expectedY) m = .ok m')
    {x : Cell} (hx : Checked c.start c.stop x) : m'.t2.Right expectedY x := by
  rw [List.foldlM_append,bind_eq_ok] at h
  obtain ⟨m₁,-,h⟩ := h
  rw [List.foldlM_cons,bind_eq_ok] at h
  obtain ⟨m₂,h₂,h⟩ := h
  cases h
  exact (copyAndCheck_eq_ok_iff.mp h₂).2.2 x hx

theorem succ_ne (i : Fin 32) : UInt8.ofNat i ≠ UInt8.ofNat (i+1) := by
  decide +revert

theorem shiftAndCheck_writes (h : shiftAndCheck memcpy m = .ok ()) {x : Cell}
    (hx : x ≠ .pad0 31 ∧ x ≠ .pad1 31) (hright : m.t2.Right expectedY x) :
    (shiftEffect memcpy m).Writes x := by
  by_contra hw
  have hsame : (m.after (shiftEffect memcpy m)).t2.content x = m.t2.content x :=
    content_putAll_of_forall_ne fun s hs hsx => hw ⟨s,hs,hsx⟩
  rw [Test.Right,← hsame] at hright
  simp only [shiftAndCheck,bind_unit_eq_ok,failIf_eq_ok,forM_eq_ok_iff,List.mem_filter,List.mem_finRange,
    true_and,decide_eq_true_eq,not_not] at h
  obtain ⟨-,hy,hpad⟩ := h
  cases x with
  | pad0 i =>
    have hi : i.val ≠ 31 := fun hi => hx.1 (congrArg Cell.pad0 (Fin.ext hi))
    exact succ_ne i (hright.symm.trans (hpad i (by omega)).1)
  | y => exact hy hright.2
  | pad1 i =>
    have hi : i.val ≠ 31 := fun hi => hx.2 (congrArg Cell.pad1 (Fin.ext hi))
    exact succ_ne i (hright.symm.trans (hpad i (by omega)).2)

theorem run_copy {cs : List Copy} (h : cs.foldlM (copyAndCheck memcpy expectedY) m = .ok m') {k : Nat}
    (hk : cs[k]? = some c) : ∃ mk mk', copyAndCheck memcpy expectedY mk c = .ok mk' ∧
      (effects memcpy cs m)[k]? = some (effect memcpy mk c) ∧ (k = 0 → mk = m) := by
  induction cs generalizing m k with
  | nil => cases hk
  | cons d cs ih =>
    rw [List.foldlM_cons,bind_eq_ok] at h
    obtain ⟨m₁,h₁,h⟩ := h
    cases k with
    | zero =>
      cases hk
      exact ⟨m,m₁,h₁,rfl,fun _ => rfl⟩
    | succ k =>
      obtain ⟨mk,mk',hmk,he,-⟩ := ih h hk
      obtain ⟨-,rfl,-⟩ := copyAndCheck_eq_ok_iff.mp h₁
      exact ⟨mk,mk',hmk,he,fun hk => absurd hk (Nat.succ_ne_zero k)⟩

end Run

def Cell.offset : Cell → Nat
  | .pad0 i => i
  | .y => 32
  | .pad1 i => 48+i

def Cell.size : Cell → Nat
  | .y => 16
  | _ => 1

def Cell.Within (x : Cell) (off len : Nat) : Prop := off ≤ x.offset ∧ x.offset+x.size ≤ off+len

instance decidableWithin (x : Cell) (off len : Nat) : Decidable (x.Within off len) :=
  inferInstanceAs (Decidable (_ ∧ _))

/-- A copy is checked on exactly the cells that it copies. -/
def Copy.Covers (c : Copy) : Prop := ∀ x : Cell, Checked c.start c.stop x ↔ x.Within c.off c.len

theorem copy_covers {off len : Nat} {start stop : Fin 33} {message : CString}
    (hoff : off = start.val) (hlen : off+len = 48+stop.val) :
    Copy.Covers ⟨off,len,start,stop,message⟩ := by
  intro x
  have hstart := start.isLt
  cases x <;> simp [Checked,Cell.Within,Cell.offset,Cell.size] <;> omega

theorem copies_covers : ∀ c ∈ copies, c.Covers := by
  simp only [copies,List.forall_mem_cons,sizeofTest]
  exact ⟨copy_covers rfl rfl,copy_covers rfl rfl,copy_covers rfl rfl,copy_covers rfl rfl,by simp⟩

def cells : List Cell :=
  (List.finRange 32).map .pad0 ++ [.y] ++ (List.finRange 32).map .pad1

theorem mem_cells (x : Cell) : x ∈ cells := by
  cases x <;> simp [cells]

def rightContent (expectedY : Pointer) : Cell → Content
  | .pad0 i => .pad0 i (UInt8.ofNat i)
  | .y => .y expectedY
  | .pad1 i => .pad1 i (UInt8.ofNat i)

def shiftedContent : Cell → Content
  | .pad0 i => .pad0 i (UInt8.ofNat (i+1))
  | .y => .y .null
  | .pad1 i => .pad1 i (UInt8.ofNat (i+1))

/-- A `memcpy` that leaves the cells of `skip` alone in the call for `c`. -/
def skipping (expectedY : Pointer) (c : Copy) (skip : Cell → Bool) : Memcpy := fun dst src n _ =>
  let range := cells.filter fun x => x.Within dst.offset n
  if src.offset = dst.offset then
    ⟨[],(range.filter fun x => ¬ (dst.offset = c.off ∧ n = c.len ∧ skip x)).map
      (rightContent expectedY),dst⟩
  else ⟨[],range.map shiftedContent,dst⟩

/-- The cells of `P` are right, but perhaps for the byte that `invalidate` spoils. -/
def RightOn (expectedY : Pointer) (P : Cell → Prop) (m : Memory) : Prop :=
  ∀ x, P x → x ≠ .pad0 0 → m.t2.Right expectedY x

section Skipping

variable {a d : UInt64} {c c' : Copy} {skip : Cell → Bool} {t : Test} {m : Memory} {x : Cell}

theorem skipping_returnsDst (p : Pointer) : ReturnsDst (skipping p c skip) := by
  intro dst src n m
  simp only [skipping]
  split_ifs <;> rfl

theorem content_putAll_map {f : Cell → Content} (hf : ∀ x, (f x).cell = x) {xs : List Cell}
    (hx : x ∈ xs) : (t.putAll (xs.map f)).content x = f x := by
  refine content_putAll (P := (· = f x)) ?_ (.inr ⟨f x,List.mem_map_of_mem hx,hf x⟩)
  intro s hs hsx
  obtain ⟨x',-,rfl⟩ := List.mem_map.mp hs
  rw [← hsx,hf]

theorem rightContent_cell (p : Pointer) (x : Cell) : (rightContent p x).cell = x := by
  cases x <;> rfl

theorem shiftedContent_cell (x : Cell) : (shiftedContent x).cell = x := by
  cases x <;> rfl

theorem rightContent_right (x : Cell) : (rightContent (capT2 a d) x).Right (capT2 a d) := by
  cases x with
  | y => exact ⟨rfl,rfl⟩
  | _ => rfl

/-- The cells that the call for `c'` writes. -/
def Copy.Writes (c : Copy) (skip : Cell → Bool) (c' : Copy) (x : Cell) : Prop :=
  x.Within c'.off c'.len ∧ ¬ (c'.off = c.off ∧ c'.len = c.len ∧ skip x = true)

theorem skipping_writes (p : Pointer) :
    (effect (skipping p c skip) m c').Writes x ↔ Copy.Writes c skip c' x := by
  simp only [effect,skipping,if_true,Effect.Writes,Copy.Writes,List.mem_map,
    exists_exists_and_eq_and,rightContent_cell,List.mem_filter,mem_cells,true_and,
    decide_eq_true_eq]
  exact exists_eq_right

theorem skipping_content_of_writes {p : Pointer} (h : Copy.Writes c skip c' x) :
    (m.invalidated.after (effect (skipping p c skip) m c')).t2.content x = rightContent p x := by
  simp only [effect,skipping,if_true,Memory.after]
  refine content_putAll_map (rightContent_cell p) ?_
  simp only [List.mem_filter,mem_cells,true_and,decide_eq_true_eq]
  exact h

theorem skipping_content_of_not_writes {p : Pointer} (h : ¬ Copy.Writes c skip c' x) :
    (m.invalidated.after (effect (skipping p c skip) m c')).t2.content x =
      (invalidate m.t2).content x :=
  content_putAll_of_forall_ne fun s hs hsx => h ((skipping_writes p).mp ⟨s,hs,hsx⟩)

/-- A call passes where the cells that it leaves alone are right already. -/
theorem skipping_step (skip : Cell → Bool) {P : Cell → Prop} (hc' : c'.Covers)
    (hm : RightOn (capT2 a d) P m)
    (hskip : c'.off = c.off → c'.len = c.len → ∀ x, x.Within c'.off c'.len → skip x = true →
      x ≠ .pad0 0 ∧ P x) :
    ∃ m', copyAndCheck (skipping (capT2 a d) c skip) (capT2 a d) m c' = .ok m' ∧
      RightOn (capT2 a d) (fun x => P x ∨ x.Within c'.off c'.len) m' := by
  have hright : ∀ x, Copy.Writes c skip c' x ∨ (x ≠ .pad0 0 ∧ P x) →
      (m.invalidated.after (effect (skipping (capT2 a d) c skip) m c')).t2.Right (capT2 a d) x := by
    intro x hx
    by_cases hw : Copy.Writes c skip c' x
    · rw [Test.Right,skipping_content_of_writes hw]
      exact rightContent_right x
    · obtain ⟨hne,hP⟩ := hx.resolve_left hw
      rw [Test.Right,skipping_content_of_not_writes hw]
      exact (invalidate_right x).mpr ⟨hne,hm x hP hne⟩
  have hwithin : ∀ x, x.Within c'.off c'.len → Copy.Writes c skip c' x ∨ (x ≠ .pad0 0 ∧ P x) := by
    intro x hx
    by_cases hs : c'.off = c.off ∧ c'.len = c.len ∧ skip x = true
    · exact .inr (hskip hs.1 hs.2.1 x hx hs.2.2)
    · exact .inl ⟨hx,hs⟩
  refine ⟨_,copyAndCheck_eq_ok_iff.mpr ⟨skipping_returnsDst _ _ _ _ _,rfl,fun x hx => ?_⟩,
    fun x hx hne => ?_⟩
  · exact hright x (hwithin x ((hc' x).mp hx))
  · rcases hx with hx | hx
    · exact hright x (.inr ⟨hne,hx⟩)
    · exact hright x (hwithin x hx)

theorem skipping_run (skip : Cell → Bool) {P : Cell → Prop} {cs : List Copy}
    (hcs : ∀ c' ∈ cs, c'.Covers)
    (hm : RightOn (capT2 a d) P m)
    (hskip : ∀ c' ∈ cs, c'.off = c.off → c'.len = c.len → ∀ x, x.Within c'.off c'.len →
      skip x = true → x ≠ .pad0 0 ∧ P x) :
    ∃ m', cs.foldlM (copyAndCheck (skipping (capT2 a d) c skip) (capT2 a d)) m = .ok m' ∧
      RightOn (capT2 a d) (fun x => P x ∨ ∃ c' ∈ cs, x.Within c'.off c'.len) m' := by
  induction cs generalizing P m with
  | nil => exact ⟨m,rfl,fun x hx hne => hm x (hx.resolve_right (by simp)) hne⟩
  | cons c' cs ih =>
    rw [List.forall_mem_cons] at hcs hskip
    obtain ⟨m₁,h₁,hm₁⟩ := skipping_step skip hcs.1 hm hskip.1
    obtain ⟨m₂,h₂,hm₂⟩ := ih hcs.2 hm₁ fun e he hoff hlen x hx hs =>
      (hskip.2 e he hoff hlen x hx hs).imp_right .inl
    refine ⟨m₂,?_,fun x hx hne => hm₂ x ?_ hne⟩
    · rw [List.foldlM_cons,h₁]
      exact h₂
    · simp only [List.exists_mem_cons_iff] at hx
      exact or_assoc.mpr hx

theorem skipping_shift (p : Pointer) : shiftAndCheck (skipping p c skip) m = .ok () := by
  have hx : ∀ x : Cell, x.Within 0 (sizeofTest-1) →
      (m.after (shiftEffect (skipping p c skip) m)).t2.content x = shiftedContent x := by
    intro x hx
    simp only [shiftEffect,skipping,Nat.one_ne_zero,if_false,Memory.after]
    exact content_putAll_map shiftedContent_cell
      (List.mem_filter.mpr ⟨mem_cells x,decide_eq_true hx⟩)
  have hret : (shiftEffect (skipping p c skip) m).ret = ⟨.t2,0⟩ := skipping_returnsDst p _ _ _ _
  have hy := hx .y (by decide)
  simp only [Test.content,shiftedContent,Content.y.injEq] at hy
  simp only [shiftAndCheck,bind_unit_eq_ok,failIf_eq_ok,forM_eq_ok_iff,List.mem_filter,
    List.mem_finRange,true_and,decide_eq_true_eq,not_not]
  refine ⟨hret,by rw [hy]; decide,fun i hi => ?_⟩
  have h0 := hx (.pad0 i) ⟨Nat.zero_le _,by simp [Cell.offset,Cell.size,sizeofTest]; omega⟩
  have h1 := hx (.pad1 i) ⟨Nat.zero_le _,by simp [Cell.offset,Cell.size,sizeofTest]; omega⟩
  simp only [Test.content,shiftedContent,Content.pad0.injEq,Content.pad1.injEq,true_and] at h0 h1
  exact ⟨h0,h1⟩

end Skipping

section Calls

variable {a d : UInt64} {m stack : Memory} {c : Copy} {skip : Cell → Bool}

def prepared (capT2 : Pointer) (stack : Memory) : Memory := { stack with t1 := fill capT2 stack.t1 }

@[simp] theorem prepared_t2 (p : Pointer) : (prepared p stack).t2 = stack.t2 := by
  rw [prepared]

theorem stringMemcpy_eq_ok_iff {memcpy : Memcpy} {p : Pointer} : stringMemcpy memcpy p stack = .ok () ↔
    ∃ m, copies.foldlM (copyAndCheck memcpy p) (prepared p stack) = .ok m ∧
      shiftAndCheck memcpy m = .ok () :=
  bind_eq_ok _ _ _

/-- The first of the copies writes everything, and no other has its arguments. -/
theorem copies_split : ∃ c₀ rest, copies = c₀ :: rest ∧ (∀ x : Cell, x.Within c₀.off c₀.len) ∧
    ∀ {k c}, copies[k]? = some c → c₀.off = c.off → c₀.len = c.len → k = 0 := by
  refine ⟨_,_,rfl,fun x => ?_,fun {k c} hk _ hlen => ?_⟩
  · cases x <;> simp [Cell.Within,Cell.offset,Cell.size,sizeofTest] <;> omega
  · obtain ⟨hlt,rfl⟩ := List.getElem?_eq_some_iff.mp hk
    have hcopies : copies.length = 4 := rfl
    rw [hcopies] at hlt
    revert hlen
    interval_cases k <;> simp [copies,sizeofTest]

theorem skipping_ok (stack : Memory) (skip : Cell → Bool) {k : Nat} (hk : copies[k]? = some c)
    (hskip : ∀ x, Checked c.start c.stop x → skip x = true →
      x ≠ .pad0 0 ∧ (k = 0 → stack.t2.Right (capT2 a d) x)) :
    stringMemcpy (skipping (capT2 a d) c skip) (capT2 a d) stack = .ok () := by
  obtain ⟨c₀,rest,hsplit,hall,hzero⟩ := copies_split
  have hcovers := copies_covers
  have hcov := hcovers c (List.mem_of_getElem? hk)
  rw [hsplit,List.forall_mem_cons] at hcovers
  -- before the first call the cells are right that the stack has right, after it all of them
  obtain ⟨m₀,h₀,hm₀⟩ := skipping_step (c := c) (a := a) (d := d) skip hcovers.1
    (m := prepared (capT2 a d) stack) (P := fun x => stack.t2.Right (capT2 a d) x)
    (fun x hx _ => by rw [prepared_t2]; exact hx) fun hoff hlen x hx hs => by
      rw [hoff,hlen] at hx
      exact (hskip x ((hcov x).mpr hx) hs).imp_right fun h => h (hzero hk hoff hlen)
  obtain ⟨m₁,h₁,-⟩ := skipping_run (c := c) skip hcovers.2 hm₀
    fun c' _ hoff hlen x hx hs => by
      rw [hoff,hlen] at hx
      exact ⟨(hskip x ((hcov x).mpr hx) hs).1,.inr (hall x)⟩
  refine stringMemcpy_eq_ok_iff.mpr ⟨m₁,?_,skipping_shift _⟩
  rw [hsplit,List.foldlM_cons,h₀]
  exact h₁

def CallWrites (memcpy : Memcpy) (capT2 : Pointer) (stack : Memory) (k : Nat) (x : Cell) : Prop :=
  ∃ e, (effects memcpy copies (prepared capT2 stack))[k]? = some e ∧ e.Writes x

theorem success_writes {memcpy : Memcpy} {p : Pointer} {k : Nat} (hk : copies[k]? = some c)
    (h : stringMemcpy memcpy p stack = .ok ()) {x : Cell} (hx : Checked c.start c.stop x)
    (hwrong : x = .pad0 0 ∨ (k = 0 ∧ ¬ stack.t2.Right p x)) : CallWrites memcpy p stack k x := by
  obtain ⟨m,hm,-⟩ := stringMemcpy_eq_ok_iff.mp h
  obtain ⟨mk,mk',hmk,he,hfirst⟩ := run_copy hm hk
  refine ⟨_,he,copyAndCheck_writes hmk hx (hwrong.imp_right fun ⟨hk0,hr⟩ => ?_)⟩
  rw [hfirst hk0,prepared_t2]
  exact hr

def ShiftWrites (memcpy : Memcpy) (capT2 : Pointer) (stack : Memory) (x : Cell) : Prop :=
  (shiftEffect memcpy (memoryAfter memcpy copies (prepared capT2 stack))).Writes x

theorem success_shift_writes {memcpy : Memcpy} {p : Pointer}
    (h : stringMemcpy memcpy p stack = .ok ()) {x : Cell} (hx : Checked 3 29 x)
    (hlast : x ≠ .pad0 31) : ShiftWrites memcpy p stack x := by
  obtain ⟨m,hm,hshift⟩ := stringMemcpy_eq_ok_iff.mp h
  have hright : m.t2.Right p x := run_last (copies.take 3) hm hx
  rw [ShiftWrites,← run_memory hm]
  refine shiftAndCheck_writes hshift ⟨hlast,?_⟩ hright
  rintro rfl
  exact absurd (show 31 < 29 from hx) (by decide)

theorem skipping_callWrites {k : Nat} (hk : copies[k]? = some c)
    (h : stringMemcpy (skipping (capT2 a d) c skip) (capT2 a d) stack = .ok ()) (x : Cell) :
    CallWrites (skipping (capT2 a d) c skip) (capT2 a d) stack k x ↔ Copy.Writes c skip c x := by
  obtain ⟨m,hm,-⟩ := stringMemcpy_eq_ok_iff.mp h
  obtain ⟨mk,mk',-,he,-⟩ := run_copy hm hk
  constructor
  · rintro ⟨e,he',hw⟩
    rw [he,Option.some.injEq] at he'
    subst he'
    exact (skipping_writes _).mp hw
  · exact fun hs => ⟨_,he,(skipping_writes _).mpr hs⟩

theorem start_zero {k : Nat} (hk : copies[k]? = some c) (h0 : k = 0) : c.start = 0 := by
  subst h0
  cases hk
  rfl

theorem silence_detected_iff (a d : UInt64) (stack : Memory) {k : Nat} (hk : copies[k]? = some c) :
    (∀ memcpy, ReturnsDst memcpy → (∀ x, ¬ CallWrites memcpy (capT2 a d) stack k x) →
      ∃ e, stringMemcpy memcpy (capT2 a d) stack = .error e) ↔ c.start = 0 := by
  constructor
  · intro h
    by_contra hstart
    have hok := skipping_ok (a := a) (d := d) stack (fun _ => true) hk
      fun x hx _ => ⟨fun hx0 => ?_,fun hk0 => absurd (start_zero hk hk0) hstart⟩
    · obtain ⟨e,he⟩ := h _ (skipping_returnsDst _) fun x hw =>
        ((skipping_callWrites hk hok x).mp hw).2 ⟨rfl,rfl,rfl⟩
      rw [hok] at he
      cases he
    · subst hx0
      exact hstart (Fin.ext (Nat.le_zero.mp hx))
  · intro hstart memcpy _ hsilent
    refine unit_eq_error_iff.mpr fun hok => hsilent (.pad0 0) (success_writes hk hok ?_ (.inl rfl))
    exact Nat.le_of_eq (congrArg Fin.val hstart)

theorem must_write_iff (a d : UInt64) (stack : Memory) {k : Nat} (hk : copies[k]? = some c) {x : Cell}
    (hx : Checked c.start c.stop x) :
    (∀ memcpy, ReturnsDst memcpy → stringMemcpy memcpy (capT2 a d) stack = .ok () →
      CallWrites memcpy (capT2 a d) stack k x) ↔
      x = .pad0 0 ∨ (k = 0 ∧ ¬ stack.t2.Right (capT2 a d) x) := by
  constructor
  · intro h
    by_contra hx'
    push Not at hx'
    have hok := skipping_ok (a := a) (d := d) stack (fun x' => decide (x' = x))
      hk fun x' _ hx'x => (of_decide_eq_true hx'x) ▸ hx'
    have hw := (skipping_callWrites hk hok x).mp (h _ (skipping_returnsDst _) hok)
    exact hw.2 ⟨rfl,rfl,decide_eq_true rfl⟩
  · exact fun hwrong memcpy _ hok => success_writes hk hok hx hwrong

/-- The oracle sees the bytes that `invalidate` reaches and no others: a check fails after it
when it starts at the first byte or the content was wrong before; the calls that must
write something are those checked from the first byte, and the cells that they must write
are that byte and what the stack held wrong before the first call. The unaligned copy must
write every byte of its own that the check before it has seen. -/
theorem memcpy_oracle_iff (address metadata : UInt64) (stack : Memory) :
    (∀ t start stop, (∃ e, check (capT2 address metadata) (invalidate t) start stop = .error e) ↔
      start = 0 ∨ ∃ x, Checked start stop x ∧ ¬ t.Right (capT2 address metadata) x) ∧
    (∀ memcpy x, stringMemcpy memcpy (capT2 address metadata) stack = .ok () →
      Checked 3 29 x → x ≠ .pad0 31 → ShiftWrites memcpy (capT2 address metadata) stack x) ∧
    ∀ k c, copies[k]? = some c →
      ((∀ memcpy, ReturnsDst memcpy →
          (∀ x, ¬ CallWrites memcpy (capT2 address metadata) stack k x) →
          ∃ e, stringMemcpy memcpy (capT2 address metadata) stack = .error e) ↔ c.start = 0) ∧
      ∀ x, Checked c.start c.stop x →
        ((∀ memcpy, ReturnsDst memcpy →
            stringMemcpy memcpy (capT2 address metadata) stack = .ok () →
            CallWrites memcpy (capT2 address metadata) stack k x) ↔
          x = .pad0 0 ∨ (k = 0 ∧ ¬ stack.t2.Right (capT2 address metadata) x)) := by
  refine ⟨fun t start stop => check_invalidate_error_iff,?_,?_⟩
  · exact fun memcpy x hok hx hlast => success_shift_writes hok hx hlast
  · exact fun k c hk =>
      ⟨silence_detected_iff address metadata stack hk,fun x hx => must_write_iff address metadata stack hk hx⟩

def zeroTest : Test := ⟨Vector.replicate 32 0,.null,Vector.replicate 32 0⟩

def secondCopy : Copy := ⟨3,sizeofTest-3,3,32,cstr "memcpy_c did not return dst (&t2.pad0[3])"⟩

theorem missing_copy_unnoticed :
    (∃ t, check (capT2 0x1000 0) (invalidate t) 3 32 = .ok ()) ∧
    ∃ memcpy, ReturnsDst memcpy ∧
      (∀ x, ¬ CallWrites memcpy (capT2 0x1000 0) ⟨zeroTest,zeroTest⟩ 1 x) ∧
      stringMemcpy memcpy (capT2 0x1000 0) ⟨zeroTest,zeroTest⟩ = .ok () := by
  have hok := skipping_ok (a := 0x1000) (d := 0) ⟨zeroTest,zeroTest⟩ (fun _ => true)
    (show copies[1]? = some secondCopy from rfl)
    fun x hx _ => ⟨fun hx0 => ?_,fun h => absurd h Nat.one_ne_zero⟩
  · refine ⟨⟨fill (capT2 0x1000 0) zeroTest,?_⟩,_,skipping_returnsDst _,fun x hw => ?_,hok⟩
    · decide +kernel
    · exact ((skipping_callWrites rfl hok x).mp hw).2 ⟨rfl,rfl,rfl⟩
  · subst hx0
    exact absurd (show 3 ≤ 0 from hx) (by decide)

end Calls

end CheriOsTest.StringTests
