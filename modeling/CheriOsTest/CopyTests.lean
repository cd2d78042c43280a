import CheriOsTest.MemcpyOracle
set_option autoImplicit false

/-! The other copying tests: those of `memmove`, of the functions that take explicit
capabilities, and of the kernel's versions of them, which go through every start and end. -/

namespace CheriOsTest.StringTests
open CheriOsTest.CStrings CheriOsTest.Programs CheriOsTest.Harness

local instance neZeroCells : NeZero 32 := ⟨by decide⟩

local instance neZeroRows : NeZero 33 := ⟨by decide⟩

/-- The copy whose alignment differs at the two ends, after `invalidate(&t2)`. -/
def shiftCopy (memcpy : Memcpy) (message : CString) (m : Memory) : Except CString Memory := do
  let m := m.invalidated
  let e := shiftEffect memcpy m
  failIf (e.ret ≠ ⟨.t2,0⟩) message
  let m := m.after e
  failIf m.t2.y.tag (cstr "dst has capability after unaligned write")
  ((List.finRange 32).filter fun i => i.val < 31).forM fun i => do
    failIf (m.t2.pad0.get i ≠ UInt8.ofNat (i+1)) (notEqual "t2.pad0" i (i+1))
    failIf (m.t2.pad1.get i ≠ UInt8.ofNat (i+1)) (notEqual "t2.pad1" i (i+1))
  pure m

def explicitCopies (name : CString) : List Copy :=
  [⟨0,sizeofTest,0,32,name ++ cstr " did not return dst (&t2)"⟩,
    ⟨3,sizeofTest-3,3,32,name ++ cstr " did not return dst (&t2.pad0[3])"⟩,
    ⟨0,sizeofTest-3,0,29,name ++ cstr " did not return dst (&t2)"⟩,
    ⟨3,sizeofTest-6,3,29,name ++ cstr " did not return dst (&t2.pad0[3])"⟩]

/-- The two nested loops. Both kernel tests name `kern_memcpy_c` here. -/
def headTailCopies : List Copy :=
  (List.finRange 32).flatMap fun head : Fin 32 => (List.finRange 32).map fun tail : Fin 32 =>
    ⟨head,sizeofTest-head-(32-tail),head.castSucc,tail.castSucc,
      cstr "kern_memcpy_c did not return dst (&t2.pad0[" ++ fmtD head ++ cstr "])"⟩

/-- The calls through capabilities with an offset; the addresses are what counts. -/
def offsetCopies (name : CString) : List Copy :=
  [⟨3,sizeofTest-6,3,29,name ++ cstr " did not return dst (&t2.pad0[3])"⟩,
    ⟨0,sizeofTest,0,32,cstr "(void*)cpy != &t2.pad0"⟩]

def lastCopy : Copy := ⟨31,sizeofTest-31,31,32,cstr "(void*)cpy != t2.pad0+31"⟩

/-- A test of explicit capabilities, with its own copies before the shifted one. The last
call is one of `memmove`. -/
def explicitTest (memcpy memmove : Memcpy) (name : CString) (before : List Copy)
    (capT2 : Pointer) (stack : Memory) : Except CString Unit := do
  let m ← before.foldlM (copyAndCheck memcpy capT2) (prepared capT2 stack)
  let m ← shiftCopy memcpy (name ++ cstr " did not return dst (&t2)") m
  let m ← (offsetCopies name).foldlM (copyAndCheck memcpy capT2) m
  let _ ← copyAndCheck memmove capT2 m lastCopy

/-- The last call of this test is one of `memmove_c`. -/
def stringMemcpyC (memcpyC memmoveC : Memcpy) : Pointer → Memory → Except CString Unit :=
  explicitTest memcpyC memmoveC (cstr "memcpy_c") (explicitCopies (cstr "memcpy_c"))

def stringMemmoveC (memmoveC : Memcpy) : Pointer → Memory → Except CString Unit :=
  explicitTest memmoveC memmoveC (cstr "memmove_c") (explicitCopies (cstr "memmove_c"))

/-- The calls and checks are those of `memcpy`; two of the texts name `memmove_c`. -/
def memmoveCopies : List Copy :=
  [⟨0,sizeofTest,0,32,cstr "copy != &t2"⟩,
    ⟨3,sizeofTest-3,3,32,cstr "memmove_c did not return dst (&t2.pad0[3])"⟩,
    ⟨0,sizeofTest-3,0,29,cstr "copy != &t2"⟩,
    ⟨3,sizeofTest-6,3,29,cstr "memmove_c did not return dst (&t2.pad0[3])"⟩]

def stringMemmove (memmove : Memcpy) (capT2 : Pointer) (stack : Memory) : Except CString Unit := do
  let m ← memmoveCopies.foldlM (copyAndCheck memmove capT2) (prepared capT2 stack)
  shiftAndCheck memmove m

def stringKernMemcpyC (kernMemcpyC : Memcpy) (capT2 : Pointer) (stack : Memory) :
    Except CString Unit := do
  check capT2 (prepared capT2 stack).t1 0 32
  explicitTest kernMemcpyC kernMemcpyC (cstr "kern_memcpy_c") headTailCopies capT2 stack

def stringKernMemmoveC (kernMemmoveC : Memcpy) : Pointer → Memory → Except CString Unit :=
  explicitTest kernMemmoveC kernMemmoveC (cstr "kern_memmove_c") headTailCopies

/-- What the tests rely on: a copy of whole cells copies them, one between different
alignments copies the bytes and leaves no capability. -/
structure Copies (f : Memcpy) : Prop where
  ret : ReturnsDst f
  source : ∀ off src n m, (f ⟨.t2,off⟩ src n m).toT1 = []
  copied : ∀ (off n : Nat) (m : Memory) (x : Cell), x.Within off n →
    (m.after (f ⟨.t2,off⟩ ⟨.t1,off⟩ n m)).t2.content x = m.t1.content x
  shifted : ∀ m : Memory, (m.after (shiftEffect f m)).t2.y.tag = false ∧ ∀ i j : Fin 32,
    j.val = i.val+1 → (m.after (shiftEffect f m)).t2.pad0.get i = m.t1.pad0.get j ∧
      (m.after (shiftEffect f m)).t2.pad1.get i = m.t1.pad1.get j

section Coverage

theorem memmoveCopies_covers : ∀ c ∈ memmoveCopies, c.Covers := by
  simp only [memmoveCopies,List.forall_mem_cons,sizeofTest]
  exact ⟨copy_covers rfl rfl,copy_covers rfl rfl,copy_covers rfl rfl,copy_covers rfl rfl,by simp⟩

theorem explicitCopies_covers (name : CString) : ∀ c ∈ explicitCopies name, c.Covers := by
  simp only [explicitCopies,List.forall_mem_cons,sizeofTest]
  exact ⟨copy_covers rfl rfl,copy_covers rfl rfl,copy_covers rfl rfl,copy_covers rfl rfl,by simp⟩

theorem offsetCopies_covers (name : CString) : ∀ c ∈ offsetCopies name, c.Covers := by
  simp only [offsetCopies,List.forall_mem_cons,sizeofTest]
  exact ⟨copy_covers rfl rfl,copy_covers rfl rfl,by simp⟩

theorem mem_headTailCopies {c : Copy} (h : c ∈ headTailCopies) : ∃ head tail : Fin 32,
    c.off = head ∧ c.len = sizeofTest-head-(32-tail) ∧ c.start = head.castSucc ∧
      c.stop = tail.castSucc := by
  simp only [headTailCopies,List.mem_flatMap,List.mem_map,List.mem_finRange,true_and] at h
  obtain ⟨head,tail,rfl⟩ := h
  exact ⟨head,tail,rfl,rfl,rfl,rfl⟩

theorem headTailCopies_covers : ∀ c ∈ headTailCopies, c.Covers := by
  intro c hc
  obtain ⟨head,tail,hoff,hlen,hstart,hstop⟩ := mem_headTailCopies hc
  have hhead := head.isLt
  obtain ⟨off,len,start,stop,message⟩ := c
  subst hoff hlen hstart hstop
  exact copy_covers rfl (by simp [sizeofTest]; omega)

theorem headTailCopies_length : headTailCopies.length = 1024 := by decide +kernel

theorem lastCopy_covers : lastCopy.Covers := copy_covers rfl rfl

end Coverage

theorem shiftCopy_eq_ok_iff {f : Memcpy} {message : CString} {m m' : Memory} :
    shiftCopy f message m = .ok m' ↔ shiftAndCheck f m.invalidated = .ok () ∧
      m' = m.invalidated.after (shiftEffect f m.invalidated) := by
  simp only [shiftCopy,shiftAndCheck,bind_unit_eq_ok,failIf_eq_ok,forM_eq_ok_iff,pure,Except.pure,
    Except.ok.injEq,Vector.get_eq_getElem,Fin.getElem_fin]
  constructor
  · rintro ⟨hret,htag,hpad,rfl⟩
    exact ⟨⟨hret,htag,hpad⟩,rfl⟩
  · rintro ⟨⟨hret,htag,hpad⟩,rfl⟩
    exact ⟨hret,htag,hpad,rfl⟩

theorem explicitTest_eq_ok_iff {f g : Memcpy} {name : CString} {before : List Copy} {p : Pointer}
    {stack : Memory} : explicitTest f g name before p stack = .ok () ↔ ∃ m₁ m₂ m₃ m₄,
      before.foldlM (copyAndCheck f p) (prepared p stack) = .ok m₁ ∧
      shiftAndCheck f m₁.invalidated = .ok () ∧
      m₂ = m₁.invalidated.after (shiftEffect f m₁.invalidated) ∧
      (offsetCopies name).foldlM (copyAndCheck f p) m₂ = .ok m₃ ∧
      copyAndCheck g p m₃ lastCopy = .ok m₄ := by
  simp only [explicitTest,bind_eq_ok,shiftCopy_eq_ok_iff,pure,Except.pure,and_true]
  constructor
  · rintro ⟨m₁,h₁,m₂,⟨hs,h₂⟩,m₃,h₃,m₄,h₄⟩
    exact ⟨m₁,m₂,m₃,m₄,h₁,hs,h₂,h₃,h₄⟩
  · rintro ⟨m₁,m₂,m₃,m₄,h₁,hs,h₂,h₃,h₄⟩
    exact ⟨m₁,h₁,m₂,⟨hs,h₂⟩,m₃,h₃,m₄,h₄⟩

/-- `t1` holds what the tests have filled it with. -/
def SourceRight (p : Pointer) (m : Memory) : Prop := ∀ x, m.t1.Right p x

@[simp] theorem invalidated_t1 (m : Memory) : m.invalidated.t1 = m.t1 := by rw [Memory.invalidated]

theorem SourceRight.invalidated {p : Pointer} {m : Memory} (h : SourceRight p m) :
    SourceRight p m.invalidated := by
  intro x
  rw [invalidated_t1]
  exact h x

theorem SourceRight.after {p : Pointer} {m : Memory} {e : Effect} (h : SourceRight p m)
    (he : e.toT1 = []) : SourceRight p (m.after e) := by
  intro x
  rw [Memory.after,he]
  exact h x

section Accepted

variable {a d : UInt64} {f : Memcpy} {m stack : Memory}

theorem fill_right (t : Test) (x : Cell) : (fill (capT2 a d) t).Right (capT2 a d) x := by
  have hfill : fill (capT2 a d) t = (invalidate t).putAll
      ((List.finRange 32).flatMap (fun i : Fin 32 => [Content.pad0 i (UInt8.ofNat i),
        .pad1 i (UInt8.ofNat i)]) ++ [.y (capT2 a d)]) := by
    simp [fill,Test.putAll,List.foldl_append,List.foldl_flatMap]
  rw [hfill,Test.Right]
  refine content_putAll (fun s hs _ => ?_) (.inr ?_)
  · rcases List.mem_append.mp hs with hs | hs
    · obtain ⟨i,-,hs⟩ := List.mem_flatMap.mp hs
      simp only [List.mem_cons,List.not_mem_nil,or_false] at hs
      rcases hs with rfl | rfl <;> rfl
    · rw [List.mem_singleton.mp hs]
      exact ⟨rfl,rfl⟩
  · cases x with
    | y => exact ⟨.y (capT2 a d),by simp,rfl⟩
    | pad0 i => exact ⟨.pad0 i (UInt8.ofNat i),by simp,rfl⟩
    | pad1 i => exact ⟨.pad1 i (UInt8.ofNat i),by simp,rfl⟩

theorem Copies.copyAndCheck_ok (hf : Copies f) (hm : SourceRight (capT2 a d) m) {c : Copy}
    (hc : c.Covers) :
    ∃ m', copyAndCheck f (capT2 a d) m c = .ok m' ∧ SourceRight (capT2 a d) m' := by
  refine ⟨_,copyAndCheck_eq_ok_iff.mpr ⟨hf.ret _ _ _ _,rfl,fun x hx => ?_⟩,fun x => ?_⟩
  · rw [effect,Test.Right,hf.copied _ _ _ _ ((hc x).mp hx)]
    exact hm.invalidated x
  · exact hm.invalidated.after (hf.source _ _ _ _) x

theorem Copies.run_ok (hf : Copies f) (hm : SourceRight (capT2 a d) m) {cs : List Copy}
    (hcs : ∀ c ∈ cs, c.Covers) :
    ∃ m', cs.foldlM (copyAndCheck f (capT2 a d)) m = .ok m' ∧ SourceRight (capT2 a d) m' := by
  induction cs generalizing m with
  | nil => exact ⟨m,rfl,hm⟩
  | cons c cs ih =>
    rw [List.forall_mem_cons] at hcs
    obtain ⟨m₁,h₁,hm₁⟩ := hf.copyAndCheck_ok hm hcs.1
    obtain ⟨m₂,h₂,hm₂⟩ := ih hm₁ hcs.2
    refine ⟨m₂,?_,hm₂⟩
    rw [List.foldlM_cons,h₁]
    exact h₂

theorem Copies.shift_ok (hf : Copies f) (hm : SourceRight (capT2 a d) m) :
    shiftAndCheck f m = .ok () ∧ SourceRight (capT2 a d) (m.after (shiftEffect f m)) := by
  obtain ⟨htag,hpad⟩ := hf.shifted m
  constructor
  · simp only [shiftAndCheck,bind_unit_eq_ok,failIf_eq_ok,forM_eq_ok_iff,List.mem_filter,
      List.mem_finRange,true_and,decide_eq_true_eq,not_not]
    refine ⟨hf.ret _ _ _ _,by simp [htag],fun i hi => ?_⟩
    have hnext := hpad i ⟨i+1,Nat.succ_lt_succ hi⟩ rfl
    have h0 := hm (.pad0 ⟨i+1,Nat.succ_lt_succ hi⟩)
    have h1 := hm (.pad1 ⟨i+1,Nat.succ_lt_succ hi⟩)
    exact ⟨hnext.1.trans h0,hnext.2.trans h1⟩
  · exact hm.after (hf.source _ _ _ _)

theorem prepared_right (stack : Memory) : SourceRight (capT2 a d) (prepared (capT2 a d) stack) :=
  fun x => fill_right stack.t1 x

theorem Copies.stringMemcpy_ok (hf : Copies f) : stringMemcpy f (capT2 a d) stack = .ok () := by
  obtain ⟨m,hrun,hm⟩ := hf.run_ok (prepared_right (a := a) (d := d) stack) copies_covers
  exact stringMemcpy_eq_ok_iff.mpr ⟨m,hrun,(hf.shift_ok hm).1⟩

theorem Copies.stringMemmove_ok (hf : Copies f) : stringMemmove f (capT2 a d) stack = .ok () := by
  obtain ⟨m,hrun,hm⟩ := hf.run_ok (prepared_right (a := a) (d := d) stack) memmoveCopies_covers
  rw [stringMemmove,bind_eq_ok]
  exact ⟨m,hrun,(hf.shift_ok hm).1⟩

theorem Copies.explicitTest_ok (hf : Copies f) {g : Memcpy} (hg : Copies g) (name : CString)
    {before : List Copy} (hbefore : ∀ c ∈ before, c.Covers) :
    explicitTest f g name before (capT2 a d) stack = .ok () := by
  obtain ⟨m₁,h₁,hm₁⟩ := hf.run_ok (prepared_right (a := a) (d := d) stack) hbefore
  obtain ⟨hs,hm₂⟩ := hf.shift_ok hm₁.invalidated
  obtain ⟨m₃,h₃,hm₃⟩ := hf.run_ok hm₂ (offsetCopies_covers name)
  obtain ⟨m₄,h₄,-⟩ := hg.copyAndCheck_ok hm₃ lastCopy_covers
  exact explicitTest_eq_ok_iff.mpr ⟨m₁,_,m₃,m₄,h₁,hs,rfl,h₃,h₄⟩

end Accepted

/-- Every test takes every function that copies, from whatever its stack holds, and each of
its checks looks at exactly the cells that the call before it has copied. -/
theorem copies_accepted (address metadata : UInt64) (stack : Memory) (f g : Memcpy)
    (hf : Copies f) (hg : Copies g) :
    (∀ name, ∀ c ∈ copies ++ memmoveCopies ++ explicitCopies name ++ headTailCopies ++
      offsetCopies name ++ [lastCopy], c.Covers) ∧
    stringMemcpy f (capT2 address metadata) stack = .ok () ∧
    stringMemmove f (capT2 address metadata) stack = .ok () ∧
    stringMemcpyC f g (capT2 address metadata) stack = .ok () ∧
    stringMemmoveC f (capT2 address metadata) stack = .ok () ∧
    stringKernMemcpyC f (capT2 address metadata) stack = .ok () ∧
    stringKernMemmoveC f (capT2 address metadata) stack = .ok () := by
  refine ⟨fun name c hc => ?_,hf.stringMemcpy_ok,hf.stringMemmove_ok,
    hf.explicitTest_ok hg _ (explicitCopies_covers _),
    hf.explicitTest_ok hf _ (explicitCopies_covers _),
    ?_,hf.explicitTest_ok hf _ headTailCopies_covers⟩
  · simp only [List.mem_append,List.mem_singleton] at hc
    rcases hc with ((((hc | hc) | hc) | hc) | hc) | rfl
    · exact copies_covers c hc
    · exact memmoveCopies_covers c hc
    · exact explicitCopies_covers name c hc
    · exact headTailCopies_covers c hc
    · exact offsetCopies_covers name c hc
    · exact lastCopy_covers
  · rw [stringKernMemcpyC,bind_unit_eq_ok]
    exact ⟨check_eq_ok_iff.mpr fun x _ => prepared_right stack x,
      hf.explicitTest_ok hf _ headTailCopies_covers⟩

/-- What a copy to one byte below leaves in a cell. -/
def nextContent (t : Test) : Cell → Content
  | .pad0 i => .pad0 i (if h : i.val+1 < 32 then t.pad0[i.val+1] else 0)
  | .y => .y .null
  | .pad1 i => .pad1 i (if h : i.val+1 < 32 then t.pad1[i.val+1] else 0)

/-- A copy byte for byte, for the calls that the tests make. -/
def byteCopy : Memcpy := fun dst src n m =>
  if src.offset = dst.offset then
    ⟨[],(cells.filter fun x => decide (dst.offset ≤ x.offset ∧ x.offset+x.size ≤ dst.offset+n)).map
      m.t1.content,dst⟩
  else ⟨[],cells.map (nextContent m.t1),dst⟩

theorem content_cell (t : Test) (x : Cell) : (t.content x).cell = x := by
  cases x <;> rfl

theorem nextContent_cell (t : Test) (x : Cell) : (nextContent t x).cell = x := by
  cases x <;> rfl

theorem byteCopy_copies : Copies byteCopy where
  ret dst src n m := by
    unfold byteCopy
    split_ifs <;> rfl
  source off src n m := by
    unfold byteCopy
    split_ifs <;> rfl
  copied off n m x hx := by
    rw [byteCopy,if_pos rfl]
    exact content_putAll_map (content_cell m.t1)
      (List.mem_filter.mpr ⟨mem_cells x,decide_eq_true hx⟩)
  shifted m := by
    have hall := fun x => content_putAll_map (t := m.t2) (nextContent_cell m.t1) (mem_cells x)
    rw [shiftEffect,byteCopy,if_neg (by simp)]
    have hy := hall .y
    simp only [Test.content,nextContent,Content.y.injEq] at hy
    refine ⟨by rw [Memory.after,hy]; rfl,fun i j hij => ?_⟩
    have h0 := hall (.pad0 i)
    have h1 := hall (.pad1 i)
    have hj : i.val+1 < 32 := hij ▸ j.isLt
    simp only [Test.content,nextContent,Content.pad0.injEq,Content.pad1.injEq,true_and,dif_pos hj]
      at h0 h1
    simp only [Vector.get_eq_getElem,hij]
    exact ⟨h0,h1⟩

theorem copies_accepted_byteCopy :
    stringMemcpyC byteCopy byteCopy (capT2 0x1000 0) ⟨zeroTest,zeroTest⟩ = .ok () ∧
      stringKernMemcpyC byteCopy (capT2 0x1000 0) ⟨zeroTest,zeroTest⟩ = .ok () := by
  have h := copies_accepted 0x1000 0 ⟨zeroTest,zeroTest⟩ byteCopy byteCopy byteCopy_copies
    byteCopy_copies
  exact ⟨h.2.2.2.1,h.2.2.2.2.2.1⟩

section Silent

variable {a d : UInt64} {f g : Memcpy} {m m' stack : Memory} {c c' : Copy} {cs : List Copy}

/-- The function does nothing to `t2` when it is called for `c`. -/
def Silent (f : Memcpy) (c : Copy) : Prop :=
  ∀ m, ¬ ∃ x, (f ⟨.t2,c.off⟩ ⟨.t1,c.off⟩ c.len m).Writes x

theorem run_mem {p : Pointer} (h : cs.foldlM (copyAndCheck f p) m = .ok m') (hc : c ∈ cs) :
    ∃ mk mk', copyAndCheck f p mk c = .ok mk' := by
  obtain ⟨k,hk⟩ := List.mem_iff_getElem?.mp hc
  obtain ⟨mk,mk',hmk,-⟩ := run_copy h hk
  exact ⟨mk,mk',hmk⟩

/-- A call that has to bring back the first byte cannot be silent. -/
theorem first_not_silent {p : Pointer} {mk mk' : Memory} (hc : c.Covers) (hlen : 0 < c.len)
    (hoff : c.off = 0) (h : copyAndCheck f p mk c = .ok mk') : ¬ Silent f c := by
  intro hsilent
  have hx : Checked c.start c.stop (.pad0 0) :=
    (hc _).mpr ⟨by rw [hoff]; exact Nat.zero_le _,by simp [Cell.offset,Cell.size]; omega⟩
  exact hsilent mk.invalidated ⟨_,copyAndCheck_writes h hx (.inl rfl)⟩

/-- Nor can the one that comes right after the shifted copy. -/
theorem afterShift_not_silent {p : Pointer} {name : CString} {m₂ m₃ : Memory}
    (hs : shiftAndCheck f m.invalidated = .ok ())
    (h₂ : m₂ = m.invalidated.after (shiftEffect f m.invalidated))
    (h₃ : (offsetCopies name).foldlM (copyAndCheck f p) m₂ = .ok m₃) (hoff : c.off = 3)
    (hlen : c.len = sizeofTest-6) : ¬ Silent f c := by
  intro hsilent
  simp only [shiftAndCheck,bind_unit_eq_ok,failIf_eq_ok,forM_eq_ok_iff,List.mem_filter,
    List.mem_finRange,true_and,decide_eq_true_eq,not_not] at hs
  have hfour := (hs.2.2 3 (by decide)).1
  rw [← h₂] at hfour
  rw [offsetCopies,List.foldlM_cons,bind_eq_ok] at h₃
  obtain ⟨mk,hmk,-⟩ := h₃
  have hwrong : ¬ m₂.t2.Right p (.pad0 3) := fun hright =>
    succ_ne 3 ((show m₂.t2.pad0[(3 : Fin 32)] = UInt8.ofNat 3 from hright).symm.trans hfour)
  have hw := copyAndCheck_writes hmk (x := .pad0 3) (show 3 ≤ 3 from Nat.le_refl 3) (.inr hwrong)
  refine hsilent m₂.invalidated ⟨.pad0 3,?_⟩
  rw [hoff,hlen]
  exact hw

/-- What the explicit tests go through before the shifted copy: copies from the first byte on
that cover every cell the others do. -/
structure Before (cs : List Copy) : Prop where
  first : ∃ first rest, cs = first ++ rest ∧ (∀ c ∈ first, c.off = 0) ∧
    ∀ c ∈ rest, ∀ x : Cell, x.Within c.off c.len → ∃ c₀ ∈ first, x.Within c₀.off c₀.len
  covers : ∀ c ∈ cs, c.Covers
  len : ∀ c ∈ cs, 0 < c.len

theorem within_whole (x : Cell) : x.Within 0 sizeofTest := by
  cases x <;> simp [Cell.Within,Cell.offset,Cell.size,sizeofTest] <;> omega

theorem explicitCopies_before (name : CString) : Before (explicitCopies name) where
  first := by
    refine ⟨_,_,List.singleton_append.symm,by simp,fun c _ x _ => ?_⟩
    exact ⟨_,List.mem_singleton_self _,within_whole x⟩
  covers := explicitCopies_covers name
  len := by simp [explicitCopies,sizeofTest]

/-- A row of the loops starts at `head`. -/
def row (head : Fin 32) : List Copy := (List.finRange 32).map fun tail : Fin 32 =>
  ⟨head,sizeofTest-head-(32-tail),head.castSucc,tail.castSucc,
    cstr "kern_memcpy_c did not return dst (&t2.pad0[" ++ fmtD head ++ cstr "])"⟩

theorem headTailCopies_rows :
    headTailCopies = row 0 ++ (List.finRange 31).flatMap fun i => row i.succ := by
  rw [headTailCopies,List.finRange_succ,List.flatMap_cons,List.flatMap_map]
  rfl

theorem headTailCopies_before : Before headTailCopies where
  first := by
    refine ⟨_,_,headTailCopies_rows,fun c hc => ?_,fun c hc x hx => ?_⟩
    · obtain ⟨tail,-,rfl⟩ := List.mem_map.mp hc
      rfl
    · obtain ⟨head,-,hc⟩ := List.mem_flatMap.mp hc
      obtain ⟨tail,-,rfl⟩ := List.mem_map.mp hc
      have htail := tail.isLt
      have hhead := head.isLt
      refine ⟨_,List.mem_map_of_mem (List.mem_finRange tail),Nat.zero_le _,hx.2.trans ?_⟩
      simp [sizeofTest]
      omega
  covers := headTailCopies_covers
  len c hc := by
    obtain ⟨head,tail,-,hlen,-,-⟩ := mem_headTailCopies hc
    have hhead := head.isLt
    rw [hlen,sizeofTest]
    omega

/-- The arguments of the calls that bring back a byte that the test itself has spoiled. -/
def Restores (c : Copy) : Prop := c.off = 0 ∨ (c.off = 3 ∧ c.len = sizeofTest-6)

instance decidableRestores (c : Copy) : Decidable (Restores c) :=
  inferInstanceAs (Decidable (_ ∨ _))

theorem success_not_silent {name : CString} (hcs : Before cs) {p : Pointer}
    (h : explicitTest f g name cs p stack = .ok ()) (hc : c ∈ cs ++ offsetCopies name)
    (hr : Restores c) : ¬ Silent f c := by
  obtain ⟨m₁,m₂,m₃,m₄,h₁,hs,h₂,h₃,-⟩ := explicitTest_eq_ok_iff.mp h
  rcases hr with hoff | ⟨hoff,hlen⟩
  · rcases List.mem_append.mp hc with hc | hc
    · obtain ⟨mk,mk',hmk⟩ := run_mem h₁ hc
      exact first_not_silent (hcs.covers c hc) (hcs.len c hc) hoff hmk
    · obtain ⟨mk,mk',hmk⟩ := run_mem h₃ hc
      have hlen : ∀ c ∈ offsetCopies name, 0 < c.len := by simp [offsetCopies,sizeofTest]
      exact first_not_silent (offsetCopies_covers name c hc) (hlen c hc) hoff hmk
  · exact afterShift_not_silent hs h₂ h₃ hoff hlen

/-- The function that is silent for `c` alone passes: what it leaves alone is right already. -/
theorem mute_accepted (name : CString) (hcs : Before cs) (hr : ¬ Restores c) :
    explicitTest (skipping (capT2 a d) c fun _ => true)
      (skipping (capT2 a d) c fun _ => true) name cs
      (capT2 a d) stack = .ok () := by
  have hc : c.off ≠ 0 := fun h => hr (.inl h)
  obtain ⟨first,rest,hsplit,hzero,hrest⟩ := hcs.first
  have hcovers := hcs.covers
  rw [hsplit] at hcovers
  obtain ⟨m₀,h₀,hm₀⟩ := skipping_run (a := a) (d := d) (c := c) (fun _ => true)
    (fun c' hc' => hcovers c' (List.mem_append_left _ hc')) (m := prepared (capT2 a d) stack)
    (P := fun _ => False) (fun _ h _ => h.elim)
    fun c' hc' hoff _ _ _ _ => absurd (hoff.symm.trans (hzero c' hc')) hc
  have hfirst : ∀ c' : Copy, c'.off = c.off → ∀ x : Cell, x.Within c'.off c'.len → x ≠ .pad0 0 := by
    rintro c' hoff _ hx rfl
    have hle : c'.off ≤ 0 := hx.1
    omega
  obtain ⟨m₁,h₁,-⟩ := skipping_run (c := c) (fun _ => true)
    (fun c' hc' => hcovers c' (List.mem_append_right _ hc')) hm₀
    fun c' hc' hoff _ x hx _ => ⟨hfirst c' hoff x hx,.inr (hrest c' hc' x hx)⟩
  -- the shifted copy spoils `t2`; neither of the two calls after it is the one left out
  obtain ⟨m₂,h₂,hm₂⟩ := skipping_run (a := a) (d := d) (c := c) (fun _ => true)
    (offsetCopies_covers name)
    (m := m₁.invalidated.after (shiftEffect (skipping (capT2 a d) c fun _ => true) m₁.invalidated))
    (P := fun _ => False) (fun _ h _ => h.elim) (by
      simp only [offsetCopies,List.forall_mem_cons]
      exact ⟨fun hoff hlen => absurd (.inr ⟨hoff.symm,hlen.symm⟩) hr,
        fun hoff => absurd hoff.symm hc,by simp⟩)
  have hall : ∀ x : Cell, False ∨ ∃ c' ∈ offsetCopies name, x.Within c'.off c'.len := fun x =>
    .inr ⟨_,List.mem_cons_of_mem _ (List.mem_singleton_self _),within_whole x⟩
  obtain ⟨m₃,h₃,-⟩ := skipping_step (c := c) (fun _ => true) lastCopy_covers hm₂
    fun hoff _ x hx _ => ⟨hfirst lastCopy hoff x hx,hall x⟩
  refine explicitTest_eq_ok_iff.mpr ⟨m₁,_,m₂,m₃,?_,skipping_shift _,rfl,h₂,h₃⟩
  rw [hsplit,List.foldlM_append,bind_eq_ok]
  exact ⟨m₀,h₀,h₁⟩

end Silent

theorem headTailCopies_free : (headTailCopies.filter fun c => ¬ Restores c).length = 991 := by
  decide +kernel

/-- The test reports every function that is silent for `c`. -/
def Detects (test : Memcpy → Except CString Unit) (c : Copy) : Prop :=
  ∀ f, ReturnsDst f → Silent f c → ∃ e, test f = .error e

theorem mute_silent (p : Pointer) (c : Copy) : Silent (skipping p c fun _ => true) c := by
  rintro m ⟨x,s,hs,-⟩
  simp [skipping] at hs

theorem detects_iff {test : Memcpy → Except CString Unit} (address metadata : UInt64)
    (stack : Memory) {name : CString} {cs : List Copy} (hcs : Before cs)
    (htest : ∀ f, test f = .ok () ↔
      explicitTest f f name cs (capT2 address metadata) stack = .ok ())
    {c : Copy} (hc : c ∈ cs ++ offsetCopies name ++ [lastCopy]) : Detects test c ↔ Restores c := by
  constructor
  · intro h
    by_contra hr
    obtain ⟨e,he⟩ := h _ (skipping_returnsDst (capT2 address metadata)) (mute_silent _ c)
    have hok := (htest _).mpr (mute_accepted name hcs hr)
    rw [hok] at he
    cases he
  · intro hr f _ hsilent
    refine unit_eq_error_iff.mpr fun hok => ?_
    rcases List.mem_append.mp hc with hc | hc
    · exact success_not_silent hcs ((htest f).mp hok) hc hr hsilent
    · rw [List.mem_singleton.mp hc] at hr
      rcases hr with hr | hr
      · exact absurd hr (by decide)
      · exact absurd hr.1 (by decide)

/-- What a function does is known by the start and the length that it is called with. It may
do nothing for them in every call, unless they start at the first byte, which `invalidate` has
spoiled, or are those of the call made right after the shifted copy: 991 of the 1024 pairs
that the loops go through. -/
theorem silent_call_detected_iff (address metadata : UInt64) (stack : Memory) (c : Copy) :
    (c ∈ explicitCopies (cstr "memmove_c") ++ offsetCopies (cstr "memmove_c") ++ [lastCopy] →
      (Detects (stringMemmoveC · (capT2 address metadata) stack) c ↔ Restores c)) ∧
    (c ∈ headTailCopies ++ offsetCopies (cstr "kern_memcpy_c") ++ [lastCopy] →
      (Detects (stringKernMemcpyC · (capT2 address metadata) stack) c ↔ Restores c)) ∧
    (c ∈ headTailCopies ++ offsetCopies (cstr "kern_memmove_c") ++ [lastCopy] →
      (Detects (stringKernMemmoveC · (capT2 address metadata) stack) c ↔ Restores c)) ∧
    headTailCopies.length = 1024 ∧ (headTailCopies.filter fun c => ¬ Restores c).length = 991 := by
  refine ⟨detects_iff address metadata stack (explicitCopies_before _) fun f => Iff.rfl,
    detects_iff address metadata stack headTailCopies_before fun f => ?_,
    detects_iff address metadata stack headTailCopies_before fun f => Iff.rfl,
    headTailCopies_length,headTailCopies_free⟩
  rw [stringKernMemcpyC,bind_unit_eq_ok]
  exact and_iff_right (check_eq_ok_iff.mpr fun x _ => prepared_right stack x)

theorem silent_call_unnoticed : ∃ c ∈ headTailCopies, c.off = 1 ∧
    ¬ Detects (stringKernMemcpyC · (capT2 0x1000 0) ⟨zeroTest,zeroTest⟩) c := by
  have hmem : ⟨1,47,1,0,cstr "kern_memcpy_c did not return dst (&t2.pad0[" ++ fmtD 1 ++ cstr "])"⟩ ∈
      headTailCopies :=
    List.mem_flatMap.mpr ⟨1,List.mem_finRange _,List.mem_map.mpr ⟨0,List.mem_finRange _,rfl⟩⟩
  refine ⟨_,hmem,rfl,fun h => ?_⟩
  have hr := ((silent_call_detected_iff 0x1000 0 ⟨zeroTest,zeroTest⟩ _).2.1
    (List.mem_append_left _ (List.mem_append_left _ hmem))).mp h
  rcases hr with hr | hr
  · exact absurd hr (by decide)
  · exact absurd hr.1 (by decide)

end CheriOsTest.StringTests
