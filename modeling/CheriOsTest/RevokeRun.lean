import CheriOsTest.RevokeLib
set_option autoImplicit false

/-! Runs of the revocation test. Between two chunks the block holds a capability to
itself in every place and no granule is marked; while the epoch of a chunk is open
exactly the places of the chunk are untagged. -/

namespace CheriOsTest.Revoke
open CheriOsTest.Capabilities CheriOsTest.CStrings CheriOsTest.Programs

/-- The capability has room for `n` capabilities from its address on, and keeps both
its tag and a permission when the one for the kernel is taken away. -/
structure Room (p : Platform) (n : Nat) (c : Capability) : Prop where
  tag : c.tag = true
  unsealed : c.otype = -1
  aligned : c.address%sizeofPtr = 0
  start : c.base ≤ c.address
  stop : c.address+n*sizeofPtr ≤ c.base+c.length
  spared : c.perms &&& p.swVmem ≠ 0
  usable : c.perms &&& ~~~p.swVmem ≠ 0

/-- What the kernel and libcaprevoke are relied on for. -/
structure Platform.Revokes (p : Platform) : Prop where
  mmap : ∀ n c, p.mmap (n*sizeofPtr) = some c → Room p n c
  set : ∀ m c, (∀ g, c.Covers g → m.shadow g = false) →
    p.shadowNomapSet m c c = (0,{ m with shadow := fun g => m.shadow g || decide (c.Covers g) })
  clear : ∀ m c, p.shadowNomapClear m c =
    { m with shadow := fun g => m.shadow g && !decide (c.Covers g) }
  revoke : ∀ flags m, ∃ dequeue, p.cheriRevoke flags m = some ({ m with
    mem := fun g => (m.mem g).swept p.swVmem m.shadow
    bigblock := m.bigblock.swept p.swVmem m.shadow
    chunk := m.chunk.swept p.swVmem m.shadow
    dequeue := dequeue },dequeue)

/-- Every region can be bounded. -/
structure Platform.Exact (p : Platform) : Prop extends p.Revokes where
  boundsSet : ∀ c n, p.boundsSet c n = c.boundsSet n

/-- The number of the granule of `c[ix]`. -/
def slot (c : Capability) (ix : Nat) : Nat := c.address/sizeofPtr+ix

/-- The granules of the places `off` to `off+n` behind `c`. -/
def InRange (c : Capability) (off n g : Nat) : Prop := slot c off ≤ g ∧ g < slot c (off+n)

instance (c : Capability) (off n g : Nat) : Decidable (InRange c off n g) :=
  inferInstanceAs (Decidable (_ ∧ _))

def marks (c : Capability) (off n : Nat) (g : Nat) : Bool := decide (InRange c off n g)

/-- The capability that a round bounds to its chunk. -/
def chunkOf (c : Capability) (off csz : Nat) : Capability :=
  (c.offset (off*sizeofPtr)).boundsSet (csz*sizeofPtr)

/-- The round gets that capability. -/
def Platform.Bounds (p : Platform) (c : Capability) (off csz : Nat) : Prop :=
  p.boundsSet (c.offset (off*sizeofPtr)) (csz*sizeofPtr) = chunkOf c off csz

section Block

variable {p : Platform} {n off csz ix : Nat} {c : Capability}

theorem Room.reaches (h : Room p n c) (hix : ix < n) :
    (c.offset (ix*sizeofPtr)).Reaches sizeofPtr := by
  have hs := h.stop
  have hb := h.start
  refine ⟨h.tag,h.unsealed,?_,?_⟩ <;> simp only [Capability.offset,sizeofPtr] at * <;> omega

theorem Room.offset_aligned (h : Room p n c) : (c.offset (ix*sizeofPtr)).address%sizeofPtr = 0 := by
  have ha := h.aligned
  simp only [Capability.offset,sizeofPtr] at *
  omega

theorem address_offset : (c.offset (ix*sizeofPtr)).address/sizeofPtr = slot c ix := by
  simp only [Capability.offset,slot,sizeofPtr]
  omega

theorem chunkOf_room (h : Room p n c) (hn : off+csz ≤ n) : Room p csz (chunkOf c off csz) := by
  have hs := h.stop
  have hb := h.start
  have ha := h.aligned
  simp only [sizeofPtr] at *
  refine ⟨?_,h.unsealed,?_,Nat.le_refl _,Nat.le_refl _,h.spared,h.usable⟩
  · have hr : (c.offset (off*sizeofPtr)).Reaches (csz*sizeofPtr) := by
      refine ⟨h.tag,h.unsealed,?_,?_⟩ <;> simp only [Capability.offset,sizeofPtr] <;> omega
    exact decide_eq_true hr
  · simp only [chunkOf,Capability.offset,Capability.boundsSet,sizeofPtr]
    omega

theorem slot_chunkOf : slot (chunkOf c off csz) ix = slot c (off+ix) := by
  simp only [slot,chunkOf,Capability.offset,Capability.boundsSet,sizeofPtr]
  omega

theorem covers_chunkOf (g : Nat) : (chunkOf c off csz).Covers g ↔ InRange c off csz g := by
  simp only [Capability.Covers,InRange,slot,chunkOf,Capability.offset,Capability.boundsSet,
    sizeofPtr]
  omega

theorem Room.self_tag (h : Room p n c) (hix : ix < n) : (selfReferential p c ix).tag = true := by
  have hr := h.reaches hix
  simp only [sizeofPtr] at hr
  simp only [selfReferential,Capability.permsAnd,Capability.boundsSet,sizeofPtr,hr]
  simp [Capability.offset,h.unsealed]

theorem self_target : (selfReferential p c ix).target = slot c ix := by
  simp only [Capability.target,selfReferential,Capability.permsAnd,Capability.boundsSet,
    Capability.offset,slot,sizeofPtr]
  omega

theorem self_perms : (selfReferential p c ix).perms &&& p.swVmem = 0 :=
  Capability.permsAnd_not _ _

theorem Room.not_revoked (h : Room p n c) (hix : ix < n) :
    checkRevoked (selfReferential p c ix) = false := by
  have hp : (selfReferential p c ix).perms ≠ 0 := h.usable
  simp [checkRevoked,h.self_tag hix,hp]

theorem self_chunkOf (h : Room p n c) (hn : off+csz ≤ n) (hix : ix < csz) :
    selfReferential p (chunkOf c off csz) ix = selfReferential p c (off+ix) := by
  have h₁ := (chunkOf_room h hn).self_tag hix
  have h₂ := h.self_tag (show off+ix < n by omega)
  have ha : (chunkOf c off csz).address+ix*sizeofPtr = c.address+(off+ix)*sizeofPtr := by
    simp only [chunkOf,Capability.offset,Capability.boundsSet,sizeofPtr]
    omega
  ext
  · rw [h₁,h₂]
  · exact ha
  · rfl
  · exact ha
  · rfl
  · rfl

end Block

/-- Memory `m` with capabilities to themselves in the first `n` places behind `c`. -/
def filled (p : Platform) (c : Capability) (n : Nat) (m : Memory) : Memory := fun g =>
  if InRange c 0 n g then selfReferential p c (g-slot c 0) else m g

theorem filled_zero (p : Platform) (c : Capability) (m : Memory) : filled p c 0 m = m := by
  funext g
  rw [filled,if_neg]
  intro hg
  simp only [InRange,slot] at hg
  omega

theorem filled_succ (p : Platform) (c : Capability) (n : Nat) (m : Memory) :
    Function.update (filled p c n m) (slot c n) (selfReferential p c n) =
      filled p c (n+1) m := by
  funext g
  by_cases hg : g = slot c n
  · subst hg
    have hin : InRange c 0 (n+1) (slot c n) := by simp only [InRange,slot]; omega
    rw [Function.update_self,filled,if_pos hin]
    simp [slot]
  · rw [Function.update_of_ne hg]
    have hiff : InRange c 0 (n+1) g ↔ InRange c 0 n g := by
      simp only [InRange,slot] at *
      omega
    simp only [filled,hiff]

/-- The run `r'` is `r` after the first `n` places behind `c` were filled. -/
structure Filled (p : Platform) (c : Capability) (r : Run) (n : Nat) (r' : Run) : Prop where
  machine : r'.machine = { r.machine with mem := filled p c n r.machine.mem }
  rands : r'.rands = r.rands
  chunks : r'.chunks = r.chunks
  lost : ∀ g, losses g r'.history = losses g r.history

/-- The fill loop runs to its end. It may keep its capability in any register. -/
theorem fill_ok {p : Platform} {n : Nat} {c : Run → Capability} {r : Run}
    (hc : ∀ r' : Run, ∀ m, r'.machine = { r.machine with mem := m } → c r' = c r)
    (h : Room p n (c r)) : ∃ r', fill p n c r = .ok r' ∧ Filled p (c r) r n r' := by
  refine foldlM_range (Filled p (c r) r) n ?_ ⟨by rw [filled_zero],rfl,rfl,fun _ => rfl⟩
  intro i r' hi hr'
  rw [hc r' _ hr'.machine,store,if_pos ⟨h.reaches hi,h.offset_aligned⟩]
  refine ⟨_,rfl,?_,hr'.rands,hr'.chunks,fun g => ?_⟩
  · simp only [hr'.machine,address_offset]
    rw [filled_succ]
  · rw [← hr'.lost g]
    refine losses_kept fun hg => ?_
    simp only [address_offset]
    by_cases hgi : g = slot (c r) i
    · rw [hgi,Function.update_self]
      exact h.self_tag hi
    · rw [Function.update_of_ne hgi]
      exact hg

/-- Memory between two chunks, the first `off` places having been taken and put back:
`μ` in the block, and outside what the passes so far have left of it. -/
def settledMem (p : Platform) (b : Capability) (caps : Nat) (μ : Memory) (off : Nat) : Memory :=
  fun g => if InRange b 0 caps g then selfReferential p b (g-slot b 0)
    else (μ g).swept p.swVmem (marks b 0 off)

/-- Memory while the epoch of the chunk of `csz` places from `off` on is open. -/
def openedMem (p : Platform) (b : Capability) (caps : Nat) (μ : Memory) (off csz : Nat) :
    Memory := fun g => if InRange b 0 caps g then
      if InRange b off csz g then (selfReferential p b (g-slot b 0)).untagged
      else selfReferential p b (g-slot b 0)
    else (μ g).swept p.swVmem (marks b 0 (off+csz))

section Memories

variable {p : Platform} {b : Capability} {caps off csz ix : Nat} {μ : Memory}

theorem slot_inRange (hix : ix < caps) : InRange b 0 caps (slot b ix) := by
  simp only [InRange,slot]
  omega

theorem slot_sub (ix : Nat) : slot b ix-slot b 0 = ix := by
  simp [slot]

theorem settledMem_slot (hix : ix < caps) :
    settledMem p b caps μ off (slot b ix) = selfReferential p b ix := by
  rw [settledMem,if_pos (slot_inRange hix),slot_sub]

theorem openedMem_slot (hix : ix < caps) :
    openedMem p b caps μ off csz (slot b ix) =
      if off ≤ ix ∧ ix < off+csz then (selfReferential p b ix).untagged
      else selfReferential p b ix := by
  have hiff : InRange b off csz (slot b ix) ↔ off ≤ ix ∧ ix < off+csz := by
    simp only [InRange,slot]
    omega
  simp only [openedMem,slot_inRange hix,if_true,slot_sub,hiff]

theorem settledMem_zero (h : ∀ ix < caps, μ (slot b ix) = selfReferential p b ix) :
    settledMem p b caps μ 0 = μ := by
  funext g
  by_cases hg : InRange b 0 caps g
  · have hs : g = slot b (g-slot b 0) := by simp only [InRange,slot] at *; omega
    have hlt : g-slot b 0 < caps := by simp only [InRange,slot] at *; omega
    rw [settledMem,if_pos hg,← h _ hlt,← hs]
  · rw [settledMem,if_neg hg]
    refine Capability.swept_of_unmarked (decide_eq_false ?_)
    simp only [InRange,slot]
    omega

theorem marks_append (g : Nat) : (marks b 0 off g || marks b off csz g) = marks b 0 (off+csz) g := by
  rw [marks,marks,marks,← Bool.decide_or]
  apply decide_eq_decide.mpr
  simp only [InRange,slot]
  omega

theorem swept_settledMem (g : Nat) :
    (settledMem p b caps μ off g).swept p.swVmem (marks b off csz) =
      openedMem p b caps μ off csz g := by
  by_cases hg : InRange b 0 caps g
  · rw [settledMem,openedMem,if_pos hg,if_pos hg]
    have ht : (selfReferential p b (g-slot b 0)).target = g := by
      rw [self_target]
      simp only [InRange,slot] at *
      omega
    by_cases hc : InRange b off csz g
    · rw [if_pos hc,Capability.swept_of_marked self_perms]
      rw [ht]
      exact decide_eq_true hc
    · rw [if_neg hc,Capability.swept_of_unmarked]
      rw [ht]
      exact decide_eq_false hc
  · rw [settledMem,openedMem,if_neg hg,if_neg hg,Capability.swept_swept]
    simp only [marks_append]

theorem swept_openedMem (g : Nat) :
    (openedMem p b caps μ off csz g).swept p.swVmem (marks b off csz) =
      openedMem p b caps μ off csz g := by
  rw [← swept_settledMem,Capability.swept_swept]
  simp only [Bool.or_self]

theorem filled_openedMem (hb : Room p caps b) (hn : off+csz ≤ caps) :
    filled p (chunkOf b off csz) csz (openedMem p b caps μ off csz) =
      settledMem p b caps μ (off+csz) := by
  funext g
  have hiff : InRange (chunkOf b off csz) 0 csz g ↔ InRange b off csz g := by
    simp only [InRange,slot_chunkOf,Nat.add_zero,Nat.zero_add]
  by_cases hc : InRange b off csz g
  · have hg : InRange b 0 caps g := by simp only [InRange,slot] at *; omega
    have hlt : g-slot b off < csz := by simp only [InRange,slot] at *; omega
    rw [filled,if_pos (hiff.mpr hc),settledMem,if_pos hg,slot_chunkOf,Nat.add_zero,
      self_chunkOf hb hn hlt]
    congr 1
    simp only [InRange,slot] at *
    omega
  · rw [filled,if_neg (fun h => hc (hiff.mp h)),openedMem,settledMem,if_neg hc]

end Memories

/-- No chunk is taken: every place of the block is a capability to itself. -/
structure Settled (p : Platform) (b : Capability) (caps : Nat) (μ : Memory) (off : Nat)
    (m : Machine) : Prop where
  block : m.bigblock = b
  mem : m.mem = settledMem p b caps μ off
  shadow : m.shadow = fun _ => false

/-- The epoch of a chunk is open: its places are untagged, and it alone is marked. -/
structure Opened (p : Platform) (b : Capability) (caps : Nat) (μ : Memory) (off csz : Nat)
    (m : Machine) : Prop where
  block : m.bigblock = b
  chunk : m.chunk = chunkOf b off csz
  mem : m.mem = openedMem p b caps μ off csz
  shadow : m.shadow = marks b off csz

/-- From `r` to `r'` the places for which `P` holds lose their tag once, the others never. -/
structure Loses (b : Capability) (caps : Nat) (P : Nat → Prop) [DecidablePred P]
    (r r' : Run) : Prop where
  rands : r'.rands = r.rands
  chunks : r'.chunks = r.chunks
  lost : ∀ ix < caps, losses (slot b ix) r'.history =
    losses (slot b ix) r.history+if P ix then 1 else 0

section Rounds

variable {p : Platform} {b : Capability} {caps off csz : Nat} {μ : Memory} {r : Run}

theorem revoke_ok (text : CString) (flags : RevokeFlags) (hp : p.Revokes)
    (hb : r.machine.bigblock.perms &&& p.swVmem ≠ 0)
    (hc : r.machine.chunk.perms &&& p.swVmem ≠ 0) :
    ∃ dequeue, revoke p text flags r = .ok { r with
      machine := { r.machine with
        mem := fun g => (r.machine.mem g).swept p.swVmem r.machine.shadow
        dequeue := dequeue }
      past := r.history } := by
  obtain ⟨dequeue,hd⟩ := hp.revoke flags r.machine
  refine ⟨dequeue,?_⟩
  rw [Capability.swept_of_spared hb,Capability.swept_of_spared hc] at hd
  rw [revoke,hd]
  simp [checkSyscall,verify,failIf,bind,Except.bind,pure,Except.pure]

theorem Opened.lastPass_ok (hp : p.Revokes) (hb : Room p caps b)
    (ho : Opened p b caps μ off csz r.machine) :
    ∃ r', lastPass p r = .ok r' ∧ Opened p b caps μ off csz r'.machine ∧
      Loses b caps (fun _ => False) r r' := by
  obtain ⟨dequeue,hr⟩ := revoke_ok (r := r) _ ⟨true,true,true⟩ hp
    (by rw [ho.block]; exact hb.spared) (by rw [ho.chunk]; exact hb.spared)
  have hmem : (fun g => (r.machine.mem g).swept p.swVmem r.machine.shadow) = r.machine.mem := by
    funext g
    rw [ho.mem,ho.shadow,swept_openedMem]
  refine ⟨_,hr,⟨ho.block,ho.chunk,hmem.trans ho.mem,ho.shadow⟩,rfl,rfl,fun ix _ => ?_⟩
  refine losses_kept fun h => ?_
  rw [hmem]
  exact h

theorem Opened.putBack_ok (hp : p.Revokes) (hb : Room p caps b) (hn : off+csz ≤ caps)
    (ho : Opened p b caps μ off csz r.machine) :
    ∃ r', putBack p csz r = .ok r' ∧ Settled p b caps μ (off+csz) r'.machine ∧
      Loses b caps (fun _ => False) r r' := by
  have hclear : p.shadowNomapClear r.machine r.machine.chunk =
      { r.machine with shadow := fun _ => false } := by
    rw [hp.clear]
    congr 1
    funext g
    rw [ho.shadow,ho.chunk]
    simp [marks,covers_chunkOf]
  obtain ⟨r',hr',hf⟩ := fill_ok (p := p) (n := csz) (c := fun r => r.machine.chunk)
    (r := { r with machine := { r.machine with shadow := fun _ => false } })
    (fun _ _ h => by simp only [h]) (by rw [ho.chunk]; exact chunkOf_room hb hn)
  have hm := hf.machine
  refine ⟨r',by rw [putBack,hclear,hr'],⟨?_,?_,?_⟩,hf.rands,hf.chunks,fun ix _ => hf.lost _⟩
  · rw [hm]; exact ho.block
  · rw [hm,← filled_openedMem hb hn,← ho.mem,← ho.chunk]
  · rw [hm]

theorem load_ok {m : Machine} {c : Capability} {n ix : Nat} (hc : Room p n c) (hix : ix < n) :
    load m c ix = .ok (m.mem (slot c ix)) := by
  rw [load,if_pos ⟨hc.reaches hix,hc.offset_aligned⟩,address_offset]

theorem Opened.checkOutside_ok {m : Machine} (hb : Room p caps b) (ho : Opened p b caps μ off csz m)
    {side : CString} {ix : Nat} (hix : ix < caps) (hout : ¬ (off ≤ ix ∧ ix < off+csz)) :
    checkOutside m side ix = .ok () := by
  rw [checkOutside,ho.block,load_ok hb hix,ho.mem,openedMem_slot hix,if_neg hout]
  simp [verify,failIf,hb.not_revoked hix,bind,Except.bind]

theorem Opened.checkInside_ok {m : Machine} (hb : Room p caps b) (hn : off+csz ≤ caps)
    (ho : Opened p b caps μ off csz m) {ix : Nat} (hix : ix < csz) :
    checkInside m ix = .ok () := by
  rw [checkInside,ho.chunk,load_ok (chunkOf_room hb hn) hix,slot_chunkOf,ho.mem,
    openedMem_slot (by omega),if_pos (by omega)]
  simp [verify,failIf,checkRevoked,Capability.untagged,bind,Except.bind]

theorem Opened.checks_ok {m : Machine} (hb : Room p caps b) (hn : off+csz ≤ caps)
    (ho : Opened p b caps μ off csz m) :
    checkSurroundings caps off csz m = .ok () ∧
      (List.range csz).forM (checkInside m) = .ok () := by
  constructor
  · rw [checkSurroundings,bind_unit_eq_ok]
    constructor
    · refine forM_eq_ok fun ix hix => ho.checkOutside_ok hb ?_ ?_ <;>
        have := List.mem_range.mp hix <;> omega
    · refine forM_eq_ok fun ix hix => ?_
      have hix := List.mem_range'_1.mp hix
      exact ho.checkOutside_ok hb (by omega) (by omega)
  · exact forM_eq_ok fun ix hix => ho.checkInside_ok hb hn (List.mem_range.mp hix)

theorem Settled.openEpoch_ok (paranoia : Int) (mode : Mode) (hp : p.Revokes) (hb : Room p caps b)
    (hn : off+csz ≤ caps) (hs : Settled p b caps μ off r.machine)
    (hc : r.machine.chunk = chunkOf b off csz) :
    ∃ r', openEpoch p paranoia mode caps off csz r = .ok r' ∧
      Opened p b caps μ off csz r'.machine ∧
      Loses b caps (fun ix => off ≤ ix ∧ ix < off+csz) r r' := by
  have hset : p.shadowNomapSet r.machine r.machine.chunk r.machine.chunk =
      (0,{ r.machine with shadow := marks b off csz }) := by
    rw [hp.set _ _ (fun g _ => by rw [hs.shadow])]
    congr 2
    funext g
    rw [hs.shadow,hc]
    simp [marks,covers_chunkOf]
  obtain ⟨dequeue,hr⟩ := revoke_ok (r := { r with machine := { r.machine with
      shadow := marks b off csz } }) (cstr "cheri_revoke(crflags, 0, &crsi)")
    ⟨true,true,mode = .loadOnce⟩ hp
    (by rw [hs.block]; exact hb.spared) (by rw [hc]; exact hb.spared)
  have hmem : (fun g => (r.machine.mem g).swept p.swVmem (marks b off csz)) =
      openedMem p b caps μ off csz := by
    funext g
    rw [hs.mem,swept_settledMem]
  have ho : Opened p b caps μ off csz { r.machine with
      mem := fun g => (r.machine.mem g).swept p.swVmem (marks b off csz)
      shadow := marks b off csz
      dequeue := dequeue } := ⟨hs.block,hc,hmem,rfl⟩
  obtain ⟨hout,hin⟩ := ho.checks_ok hb hn
  refine ⟨{ r with
    machine := { r.machine with
      mem := fun g => (r.machine.mem g).swept p.swVmem (marks b off csz)
      shadow := marks b off csz
      dequeue := dequeue }
    past := r.history },?_,ho,rfl,rfl,fun ix hix => ?_⟩
  · rw [openEpoch,hset]
    simp only [verify,failIf,not_true_eq_false,if_false,bind,Except.bind,hr]
    by_cases h₁ : 1 < paranoia
    · rw [if_pos h₁,if_pos (by omega),hout,hin]
      rfl
    by_cases h₀ : 0 < paranoia
    · rw [if_neg h₁,if_pos h₀,hin]
      rfl
    · rw [if_neg h₁,if_neg h₀]
      rfl
  · have hbefore : (r.machine.mem (slot b ix)).tag = true := by
      rw [hs.mem,settledMem_slot hix,hb.self_tag hix]
    by_cases hchunk : off ≤ ix ∧ ix < off+csz
    · rw [if_pos hchunk]
      refine losses_lost hbefore ?_
      rw [ho.mem,openedMem_slot hix,if_pos hchunk]
      rfl
    · rw [if_neg hchunk]
      refine losses_kept fun _ => ?_
      rw [ho.mem,openedMem_slot hix,if_neg hchunk,hb.self_tag hix]

theorem Loses.trans {P : Nat → Prop} [DecidablePred P] {r r' r'' : Run}
    (h : Loses b caps P r r') (h' : Loses b caps (fun _ => False) r' r'') :
    Loses b caps P r r'' :=
  ⟨h'.rands.trans h.rands,h'.chunks.trans h.chunks,fun ix hix =>
    (h'.lost ix hix).trans (h.lost ix hix)⟩

theorem Settled.takeChunk (rands : Nat) (hbounds : p.Bounds b off csz)
    (hs : Settled p b caps μ off r.machine) :
    Settled p b caps μ off (takeChunk p off csz rands r).machine ∧
      (takeChunk p off csz rands r).machine.chunk = chunkOf b off csz := by
  refine ⟨⟨hs.block,hs.mem,hs.shadow⟩,?_⟩
  rw [← hbounds,← hs.block]
  rfl

variable (paranoia : Int)

theorem Settled.round_ok {mode : Mode} (hi : mode ≠ .loadSplitInit) (hf : mode ≠ .loadSplitFini)
    (hp : p.Revokes) (hb : Room p caps b) (hn : off+csz ≤ caps)
    (hs : Settled p b caps μ off r.machine) (hc : r.machine.chunk = chunkOf b off csz) :
    ∃ r', round p paranoia mode caps off csz r = .ok (.inr r') ∧
      Settled p b caps μ (off+csz) r'.machine ∧
      Loses b caps (fun ix => off ≤ ix ∧ ix < off+csz) r r' := by
  obtain ⟨r₁,h₁,ho₁,hl₁⟩ := hs.openEpoch_ok paranoia mode hp hb hn hc
  obtain ⟨r₂,h₂,ho₂,hl₂⟩ : ∃ r₂, (if mode = .loadSplit then lastPass p r₁ else pure r₁) = .ok r₂ ∧
      Opened p b caps μ off csz r₂.machine ∧ Loses b caps (fun _ => False) r₁ r₂ := by
    by_cases hm : mode = .loadSplit
    · rw [if_pos hm]
      exact ho₁.lastPass_ok hp hb
    · rw [if_neg hm]
      exact ⟨r₁,rfl,ho₁,rfl,rfl,fun _ _ => rfl⟩
  obtain ⟨r₃,h₃,hs₃,hl₃⟩ := ho₂.putBack_ok hp hb hn
  refine ⟨r₃,?_,hs₃,(hl₁.trans hl₂).trans hl₃⟩
  cases mode with
  | loadSplitInit => exact absurd rfl hi
  | loadSplitFini => exact absurd rfl hf
  | _ =>
    simp only [round,h₁,bind,Except.bind,reduceCtorEq,if_false,if_true] at h₂ ⊢
    simp only [h₂,h₃]
    rfl

theorem Settled.round_init (hp : p.Revokes) (hb : Room p caps b) (hn : off+csz ≤ caps)
    (hs : Settled p b caps μ off r.machine) (hc : r.machine.chunk = chunkOf b off csz) :
    ∃ r', round p paranoia .loadSplitInit caps off csz r = .ok (.inl r') ∧
      Opened p b caps μ off csz r'.machine ∧
      Loses b caps (fun ix => off ≤ ix ∧ ix < off+csz) r r' := by
  obtain ⟨r',h,ho,hl⟩ := hs.openEpoch_ok paranoia .loadSplitInit hp hb hn hc
  refine ⟨r',?_,ho,hl⟩
  simp only [round,h,bind,Except.bind]
  rfl

theorem Opened.round_fini (hp : p.Revokes) (hb : Room p caps b) (hn : off+csz ≤ caps)
    (ho : Opened p b caps μ off csz r.machine) :
    ∃ r', round p paranoia .loadSplitFini caps off csz r = .ok (.inr r') ∧
      Settled p b caps μ (off+csz) r'.machine ∧ Loses b caps (fun _ => False) r r' := by
  obtain ⟨r₁,h₁,ho₁,hl₁⟩ := ho.lastPass_ok hp hb
  obtain ⟨r₂,h₂,hs₂,hl₂⟩ := ho₁.putBack_ok hp hb hn
  refine ⟨r₂,?_,hs₂,hl₁.trans hl₂⟩
  simp only [round,h₁,h₂,bind,Except.bind]
  rfl

end Rounds

/-- The chunks, given by offset and size, follow one another from `a` to `b`. -/
def Tiles : Nat → Nat → List (Nat × Nat) → Prop
  | a,b,[] => a = b
  | a,b,(off,csz) :: chunks => off = a ∧ 0 < csz ∧ Tiles (a+csz) b chunks

theorem Tiles.snoc {a b n : Nat} {chunks : List (Nat × Nat)} (h : Tiles a b chunks) (hn : 0 < n) :
    Tiles a (b+n) (chunks ++ [(b,n)]) := by
  induction chunks generalizing a with
  | nil => cases h; exact ⟨rfl,hn,rfl⟩
  | cons c chunks ih => exact ⟨h.1,h.2.1,ih h.2.2⟩

/-- The invariant of the loop at `bigblock_offset = off`. -/
structure Between (p : Platform) (b : Capability) (caps : Nat) (μ : Memory) (off : Nat)
    (r : Run) : Prop where
  settled : Settled p b caps μ off r.machine
  tiles : Tiles 0 off r.chunks
  lost : ∀ ix < caps, losses (slot b ix) r.history = if ix < off then 1 else 0

theorem Between.libLoop_ok {p : Platform} {b : Capability} {caps off : Nat} {μ : Memory} {r : Run}
    (rand : Nat → Nat) (paranoia : Int) {mode : Mode} (hi : mode ≠ .loadSplitInit)
    (hf : mode ≠ .loadSplitFini) (hp : p.Revokes) (hb : Room p caps b) (hoff : off ≤ caps)
    (hbounds : ∀ c ∈ randomChunks rand r.rands caps off, p.Bounds b c.1 c.2)
    (hr : Between p b caps μ off r) :
    ∃ r', libLoop p rand paranoia mode caps off r = .ok r' ∧ Between p b caps μ caps r' ∧
      r'.rands = r.rands+(randomChunks rand r.rands caps off).length := by
  have hsize : ∀ rands left, chunkSize mode rand rands left =
      chunkSize .loadOnce rand rands left := by
    intro rands left
    cases mode with
    | loadSplitInit => exact absurd rfl hi
    | loadSplitFini => exact absurd rfl hf
    | _ => rfl
  induction hm : caps-off using Nat.strongRecOn generalizing off r with
  | ind m ih =>
    rw [libLoop]
    rw [randomChunks] at hbounds ⊢
    by_cases h : off < caps
    · simp only [dif_pos h,hsize,List.forall_mem_cons] at hbounds ⊢
      have hpos : 0 < (chunkSize .loadOnce rand r.rands (caps-off)).1 := chunkSize_pos (by omega)
      have hle := chunkSize_le .loadOnce rand r.rands (caps-off)
      have hrands : (chunkSize .loadOnce rand r.rands (caps-off)).2 = r.rands+1 := rfl
      generalize hcsz : chunkSize .loadOnce rand r.rands (caps-off) = cr at hpos hle hbounds hrands
      obtain ⟨csz,rands⟩ := cr
      simp only at hpos hle hbounds hrands ⊢
      obtain ⟨hs,hc⟩ := hr.settled.takeChunk rands hbounds.1
      obtain ⟨r',hr',hs',hl'⟩ := hs.round_ok paranoia hi hf hp hb (by omega) hc
      have hrands' : r'.rands = r.rands+1 := hl'.rands.trans hrands
      have hbetween : Between p b caps μ (off+csz) r' := by
        refine ⟨hs',?_,fun ix hix => ?_⟩
        · rw [hl'.chunks]
          exact hr.tiles.snoc hpos
        · rw [hl'.lost ix hix]
          change losses (slot b ix) r.history+_ = _
          rw [hr.lost ix hix]
          split_ifs <;> omega
      rw [hr',List.length_cons,← Nat.add_assoc,Nat.add_right_comm,← hrands']
      rw [← hrands'] at hbounds
      exact ih (caps-(off+csz)) (by omega) (by omega) hbounds.2 hbetween rfl
    · rw [dif_neg h,dif_neg h]
      have he : off = caps := by omega
      subst he
      exact ⟨r,rfl,hr,rfl⟩

theorem libInit_eq_ok {p : Platform} {caps : Nat} {m s : Machine} (hp : p.Revokes)
    (h : libInit p caps m = .ok s) : p.mmap (caps*sizeofPtr) = some s.bigblock ∧
      Room p caps s.bigblock ∧ s.shadow = m.shadow ∧
      ∀ ix < caps, s.mem (slot s.bigblock ix) = selfReferential p s.bigblock ix := by
  rw [libInit,bind_eq_ok] at h
  obtain ⟨b,hb,h⟩ := h
  have hmap : p.mmap (caps*sizeofPtr) = some b := by
    cases hmap : p.mmap (caps*sizeofPtr) with
    | none => rw [hmap] at hb; cases hb
    | some c => rw [hmap] at hb; cases hb; rfl
  have hroom : Room p caps b := hp.mmap caps b hmap
  obtain ⟨r,hr,hf⟩ := fill_ok (p := p) (n := caps) (c := fun r => r.machine.bigblock)
    (r := ⟨{ m with bigblock := b },0,[],[]⟩) (fun _ _ h => by simp only [h]) hroom
  rw [bind_eq_ok] at h
  obtain ⟨r',hr',h⟩ := h
  rw [hr] at hr'
  cases hr'
  simp only [bind_unit_eq_ok] at h
  obtain ⟨-,-,h⟩ := h
  cases h
  rw [hf.machine]
  refine ⟨hmap,hroom,rfl,fun ix hix => ?_⟩
  simp only [filled]
  rw [if_pos (slot_inRange hix),slot_sub]

/-- What a run leaves behind of the machine `s` that it started from. -/
structure Restored (caps : Nat) (s m : Machine) : Prop where
  mem : ∀ ix < caps, m.mem (slot s.bigblock ix) = s.mem (slot s.bigblock ix)
  tag : ∀ ix < caps, (m.mem (slot s.bigblock ix)).tag = true
  shadow : ∀ g, m.shadow g = false

section Claims

variable {p : Platform} {caps rands : Nat} {s : Machine}

theorem Settled.restored (hb : Room p caps s.bigblock)
    (hself : ∀ ix < caps, s.mem (slot s.bigblock ix) = selfReferential p s.bigblock ix)
    {m : Machine} {μ : Memory} (hs : Settled p s.bigblock caps μ caps m) :
    Restored caps s m := by
  have hmem : ∀ ix < caps, m.mem (slot s.bigblock ix) = selfReferential p s.bigblock ix :=
    fun ix hix => by rw [hs.mem,settledMem_slot hix]
  refine ⟨fun ix hix => ?_,fun ix hix => ?_,fun g => by rw [hs.shadow]⟩
  · rw [hmem ix hix,hself ix hix]
  · rw [hmem ix hix,hb.self_tag hix]

theorem Between.start (hshadow : s.shadow = fun _ => false)
    (hself : ∀ ix < caps, s.mem (slot s.bigblock ix) = selfReferential p s.bigblock ix) :
    Between p s.bigblock caps s.mem 0 ⟨s,rands,[],[]⟩ :=
  ⟨⟨rfl,(settledMem_zero hself).symm,hshadow⟩,rfl,fun _ _ => rfl⟩

/-- `TCLR_MODE_LOAD_SPLIT_INIT` takes the whole block and leaves its epoch open, and
`TCLR_MODE_LOAD_SPLIT_FINI` closes it. -/
theorem Between.split_ok {b : Capability} {μ : Memory} (rand : Nat → Nat) (paranoia paranoia' : Int)
    (hp : p.Revokes) (hb : Room p caps b) (hbounds : p.Bounds b 0 caps)
    (hs : Between p b caps μ 0 ⟨s,rands,[],[]⟩) :
    ∃ r₁ r₂, libRun p rand paranoia .loadSplitInit caps s rands = .ok r₁ ∧
      libRun p rand paranoia' .loadSplitFini caps r₁.machine r₁.rands = .ok r₂ ∧
      Settled p b caps μ caps r₂.machine ∧
      ∀ ix < caps, losses (slot b ix) r₁.history+losses (slot b ix) r₂.history = 1 := by
  by_cases h : 0 < caps
  · obtain ⟨hs₀,hc₀⟩ := hs.settled.takeChunk rands hbounds
    obtain ⟨r₁,h₁,ho₁,hl₁⟩ := hs₀.round_init paranoia hp hb (by omega) hc₀
    have ho : Opened p b caps μ 0 caps
        (takeChunk p 0 caps r₁.rands ⟨r₁.machine,r₁.rands,[],[]⟩).machine :=
      ⟨ho₁.block,by rw [← hbounds,← ho₁.block]; rfl,ho₁.mem,ho₁.shadow⟩
    obtain ⟨r₂,h₂,hs₂,hl₂⟩ := ho.round_fini paranoia' hp hb (by omega)
    refine ⟨r₁,r₂,?_,?_,by simpa using hs₂,fun ix hix => ?_⟩
    · rw [libRun,libLoop,dif_pos h]
      simp only [chunkSize,Nat.sub_zero,h₁]
    · rw [libRun,libLoop,dif_pos h]
      simp only [chunkSize,Nat.sub_zero,h₂,Nat.zero_add]
      rw [libLoop,dif_neg (Nat.lt_irrefl caps)]
    · rw [hl₁.lost ix hix,hl₂.lost ix hix]
      simp [Run.history,takeChunk,losses,hix]
  · have h₀ : caps = 0 := by omega
    subst h₀
    refine ⟨⟨s,rands,[],[]⟩,⟨s,rands,[],[]⟩,?_,?_,hs.settled,fun ix hix => by omega⟩
    · rw [libRun,libLoop,dif_neg (Nat.lt_irrefl 0)]
    · rw [libRun,libLoop,dif_neg (Nat.lt_irrefl 0)]

theorem Between.libRun_ok {b : Capability} {μ : Memory} (rand : Nat → Nat) (paranoia : Int)
    (mode : Mode) (hi : mode ≠ .loadSplitInit) (hf : mode ≠ .loadSplitFini) (hp : p.Revokes)
    (hb : Room p caps b) (hbounds : ∀ c ∈ randomChunks rand rands caps 0, p.Bounds b c.1 c.2)
    (hs : Between p b caps μ 0 ⟨s,rands,[],[]⟩) :
    ∃ r, libRun p rand paranoia mode caps s rands = .ok r ∧ Between p b caps μ caps r ∧
      r.rands = rands+(randomChunks rand rands caps 0).length :=
  hs.libLoop_ok rand paranoia hi hf hp hb (Nat.zero_le caps) hbounds

end Claims

/-- From the state that `libInit` leaves no check of a run fires. Its chunks tile the
block, every capability of the block is untagged once and restored, and no mark is left;
and the two halves of a split across two calls come to the same. -/
theorem libRun_restores (p : Platform) (caps rands : Nat) (m s : Machine) (rand : Nat → Nat)
    (paranoia : Int) (hp : p.Exact) (hm : ∀ g, m.shadow g = false)
    (hinit : libInit p caps m = .ok s) :
    (∀ mode, mode = .loadOnce ∨ mode = .loadSplit → ∃ r,
      libRun p rand paranoia mode caps s rands = .ok r ∧ Tiles 0 caps r.chunks ∧
      (∀ ix < caps, losses (slot s.bigblock ix) r.history = 1) ∧ Restored caps s r.machine) ∧
    ∃ r₁ r₂, libRun p rand paranoia .loadSplitInit caps s rands = .ok r₁ ∧
      libRun p rand paranoia .loadSplitFini caps r₁.machine r₁.rands = .ok r₂ ∧
      (∀ ix < caps, losses (slot s.bigblock ix) r₁.history+
        losses (slot s.bigblock ix) r₂.history = 1) ∧
      Restored caps s r₂.machine ∧
      ∀ mode r, mode = .loadOnce ∨ mode = .loadSplit →
        libRun p rand paranoia mode caps s rands = .ok r →
        r₂.machine.mem = r.machine.mem ∧ r₂.machine.shadow = r.machine.shadow := by
  have hr := hp.toRevokes
  have hbounds : ∀ b off csz, p.Bounds b off csz := fun _ _ _ => hp.boundsSet _ _
  obtain ⟨-,hb,hshadow,hself⟩ := libInit_eq_ok hr hinit
  have hstart : Between p s.bigblock caps s.mem 0 ⟨s,rands,[],[]⟩ :=
    .start (by rw [hshadow]; exact funext hm) hself
  have hrun : ∀ mode, mode = .loadOnce ∨ mode = .loadSplit → ∃ r,
      libRun p rand paranoia mode caps s rands = .ok r ∧
      Between p s.bigblock caps s.mem caps r := by
    intro mode hmode
    obtain ⟨r,h,hbetween,-⟩ := hstart.libRun_ok rand paranoia mode
      (by rcases hmode with rfl | rfl <;> decide) (by rcases hmode with rfl | rfl <;> decide) hr hb
      fun _ _ => hbounds _ _ _
    exact ⟨r,h,hbetween⟩
  constructor
  · intro mode hmode
    obtain ⟨r,hr,hbetween⟩ := hrun mode hmode
    refine ⟨r,hr,hbetween.tiles,fun ix hix => ?_,hbetween.settled.restored hb hself⟩
    rw [hbetween.lost ix hix,if_pos hix]
  · obtain ⟨r₁,r₂,h₁,h₂,hs₂,hlost⟩ :=
      hstart.split_ok rand paranoia paranoia hr hb (hbounds _ _ _)
    refine ⟨r₁,r₂,h₁,h₂,hlost,hs₂.restored hb hself,fun mode r hmode hr => ?_⟩
    obtain ⟨r',hr',hbetween⟩ := hrun mode hmode
    rw [hr] at hr'
    cases hr'
    exact ⟨hs₂.mem.trans hbetween.settled.mem.symm,hs₂.shadow.trans hbetween.settled.shadow.symm⟩

/-- A machine whose kernel maps everything at one page and does what it should. -/
def platformWith (boundsSet : Capability → Nat → Capability) : Platform where
  swVmem := 1
  boundsSet := boundsSet
  mmap n := some ⟨true,4096,n,4096,-1,3⟩
  getShadowNovmem := true
  getShadowInfo := true
  shadowNomapSet m _ c :=
    if (List.range ((c.base+c.length)/16)).any (fun g => decide (c.Covers g) && m.shadow g)
    then (1,m) else (0,{ m with shadow := fun g => m.shadow g || decide (c.Covers g) })
  shadowNomapClear m c := { m with shadow := fun g => m.shadow g && !decide (c.Covers g) }
  cheriRevoke _ m := some ({ m with
    mem := fun g => (m.mem g).swept 1 m.shadow
    bigblock := m.bigblock.swept 1 m.shadow
    chunk := m.chunk.swept 1 m.shadow
    dequeue := m.dequeue+1 },m.dequeue+1)

theorem platformWith_revokes (boundsSet : Capability → Nat → Capability) :
    (platformWith boundsSet).Revokes where
  mmap n c h := by
    cases h
    exact ⟨rfl,rfl,show 4096%16 = 0 by decide,Nat.le_refl _,Nat.le_refl _,
      show (3 : UInt64) &&& 1 ≠ 0 by decide,show (3 : UInt64) &&& ~~~1 ≠ 0 by decide⟩
  set m c h := by
    have hany : (List.range ((c.base+c.length)/16)).any
        (fun g => decide (c.Covers g) && m.shadow g) = false := by
      rw [List.any_eq_false]
      intro g _
      by_cases hg : c.Covers g
      · simp [h g hg]
      · simp [hg]
    change (if _ then _ else _) = _
    rw [hany]
    rfl
  clear _ _ := rfl
  revoke _ m := ⟨m.dequeue+1,rfl⟩

def plainPlatform : Platform := platformWith Capability.boundsSet

theorem plainPlatform_exact : plainPlatform.Exact where
  toRevokes := platformWith_revokes _
  boundsSet _ _ := rfl

def plainMachine : Machine :=
  ⟨fun _ => ⟨false,0,0,0,-1,0⟩,fun _ => false,0,⟨false,0,0,0,-1,0⟩,⟨false,0,0,0,-1,0⟩⟩

theorem libRun_restores_plain : ∃ s r, libInit plainPlatform 3 plainMachine = .ok s ∧
    libRun plainPlatform (fun n => n) 2 .loadSplit 3 s 0 = .ok r ∧ Tiles 0 3 r.chunks := by
  obtain ⟨s,hs⟩ : ∃ s, libInit plainPlatform 3 plainMachine = .ok s := ⟨_,rfl⟩
  obtain ⟨r,hr,ht,-⟩ := (libRun_restores plainPlatform 3 0 plainMachine s (fun n => n) 2
    plainPlatform_exact (fun _ => rfl) hs).1 .loadSplit (.inr rfl)
  exact ⟨s,r,hs,hr,ht⟩

end CheriOsTest.Revoke
