import CheriOsTest.FloatingBounds
import CheriOsTest.RevokeRun
set_option autoImplicit false

/-! The chunks of the revocation test in a format that cannot bound every region: which of
them keep their own bounds, and what a chunk that does not has marked along with it. -/

namespace CheriOsTest.Revoke
open CheriOsTest.Align CheriOsTest.Capabilities CheriOsTest.CStrings CheriOsTest.FloatingBounds
open CheriOsTest.Programs

def boundsUnit (len : Nat) : Nat := if len < 2^12 then 1 else unit 9 len

def Representable (base len : Nat) : Prop := boundsUnit len ∣ base ∧ boundsUnit len ∣ base+len

/-- The least bounds around a region; where rounding takes the length to the next exponent,
they are rounded to the unit of that one. -/
def enclosingBounds (base len : Nat) : Nat × Nat :=
  let u := boundsUnit len
  if roundUp u (base+len)-base/u*u < 2*2^Nat.log2 len then (base/u*u,roundUp u (base+len))
  else (base/(2*u)*(2*u),roundUp (2*u) (base+len))

/-- `cheri_bounds_set`. -/
def boundsSetRounded (c : Capability) (n : Nat) : Capability :=
  let bounds := enclosingBounds c.address n
  { c.boundsSet n with base := bounds.1, length := bounds.2-bounds.1 }

def roundedChunk (b : Capability) (off csz : Nat) : Capability :=
  boundsSetRounded (b.offset (off*sizeofPtr)) (csz*sizeofPtr)

def drawn (rand : Nat → Nat) (rands : Nat) : Nat → Nat
  | 0 => 0
  | k+1 => rand rands%1024+1+drawn rand (rands+1) k

/-- The chunk has the bounds that were asked for, and the granules they mark are its own. -/
structure ExactChunk (b : Capability) (off csz : Nat) : Prop where
  representable : Representable (b.address+off*sizeofPtr) (csz*sizeofPtr)
  covers : ∀ g, (roundedChunk b off csz).Covers g ↔ InRange b off csz g

section Bounds

variable {base len : Nat}

theorem boundsUnit_pos (len : Nat) : 0 < boundsUnit len := by
  unfold boundsUnit
  split_ifs
  · exact Nat.one_pos
  · exact unit_pos 9 len

theorem Representable.enclosingBounds_eq (h : Representable base len) :
    enclosingBounds base len = (base,base+len) := by
  obtain ⟨hbase,htop⟩ := h
  have hlow : base/boundsUnit len*boundsUnit len = base := Nat.div_mul_cancel hbase
  have hup : roundUp (boundsUnit len) (base+len) = base+len :=
    Nat.le_antisymm (roundUp_le htop (Nat.le_refl _)) (le_roundUp (boundsUnit_pos len) _)
  have hlen : base+len-base < 2*2^Nat.log2 len := by
    have hlt := Nat.lt_log2_self (n := len)
    rw [Nat.pow_succ] at hlt
    omega
  simp only [enclosingBounds,hlow,hup,if_pos hlen]

end Bounds

section Chunks

variable {b : Capability} {off csz : Nat}

theorem representable_chunk_iff (hb : 4096 ∣ b.address) (hcsz : csz ≤ 1024) :
    Representable (b.address+off*sizeofPtr) (csz*sizeofPtr) ↔ (csz = 1024 → Even off) := by
  have hcap : 16 ∣ b.address+off*sizeofPtr :=
    Nat.dvd_add ((show 16 ∣ 4096 by decide).trans hb) (Nat.dvd_mul_left _ _)
  have hlen : 16 ∣ csz*sizeofPtr := Nat.dvd_mul_left _ _
  by_cases hfull : csz = 1024
  · subst hfull
    have hunit : boundsUnit (1024*sizeofPtr) = 32 := by rfl
    obtain ⟨q,hq⟩ := hb
    rw [Representable,hunit,Nat.even_iff,sizeofPtr,hq]
    omega
  · have hunit : boundsUnit (csz*sizeofPtr) ∣ 16 := by
      rw [boundsUnit]
      split_ifs
      · exact one_dvd _
      · exact unit_dvd (k := 4) (m := 9) (show csz*16 < 2^14 by omega)
    exact ⟨fun _ h => absurd h hfull,fun _ => ⟨hunit.trans hcap,hunit.trans (Nat.dvd_add hcap hlen)⟩⟩

theorem exactChunk_iff (hb : 4096 ∣ b.address) (hcsz : csz ≤ 1024) :
    ExactChunk b off csz ↔ (csz = 1024 → Even off) := by
  rw [← representable_chunk_iff hb hcsz]
  refine ⟨fun h => h.representable,fun h => ⟨h,fun g => ?_⟩⟩
  have hbounds := h.enclosingBounds_eq
  obtain ⟨q,hq⟩ := hb
  rw [roundedChunk,boundsSetRounded,Capability.Covers,InRange,slot,slot]
  simp only [Capability.offset,hbounds]
  rw [sizeofPtr,hq]
  omega

theorem roundedChunk_marks_neighbours (hb : 4096 ∣ b.address) (hodd : ¬ Even off) :
    (roundedChunk b off 1024).Covers (slot b off-1) ∧
      (roundedChunk b off 1024).Covers (slot b (off+1024)) := by
  obtain ⟨q,hq⟩ := hb
  have hbounds : enclosingBounds (b.address+off*16) 16384 =
      (b.address+off*16-16,b.address+off*16+16400) := by
    have hunit : boundsUnit 16384 = 32 := by rfl
    have hlog : Nat.log2 16384 = 14 := by rfl
    rw [Nat.even_iff] at hodd
    rw [enclosingBounds,hunit,hlog,roundUp,if_pos (by omega),Prod.mk.injEq]
    omega
  rw [Nat.even_iff] at hodd
  rw [roundedChunk,boundsSetRounded,Capability.Covers,Capability.Covers,slot,slot]
  simp only [Capability.offset,sizeofPtr,hbounds]
  omega

end Chunks

section Sequences

variable {rand : Nat → Nat} {rands caps off : Nat}

theorem randomChunks_le {o csz : Nat} (h : (o,csz) ∈ randomChunks rand rands caps off) :
    csz ≤ 1024 := by
  induction hm : caps-off using Nat.strongRecOn generalizing off rands with
  | ind m ih =>
    rw [randomChunks] at h
    split_ifs at h with hlt
    · have hpos : 0 < (chunkSize .loadOnce rand rands (caps-off)).1 := chunkSize_pos (by omega)
      rcases List.mem_cons.mp h with h | h
      · cases h
        simp only [chunkSize]
        omega
      · exact ih _ (by omega) h rfl
    · cases h

/-- A full chunk comes from a draw of 1023 while 1024 capabilities are left. -/
theorem full_mem_randomChunks {o : Nat} : (o,1024) ∈ randomChunks rand rands caps off ↔
    ∃ k, o = off+drawn rand rands k ∧ rand (rands+k)%1024 = 1023 ∧ o+1024 ≤ caps := by
  induction hm : caps-off using Nat.strongRecOn generalizing off rands with
  | ind m ih =>
    rw [randomChunks]
    split_ifs with hlt
    · have hpos : 0 < (chunkSize .loadOnce rand rands (caps-off)).1 := chunkSize_pos (by omega)
      rw [List.mem_cons,Prod.mk.injEq,ih _ (by omega) rfl]
      simp only [chunkSize]
      constructor
      · rintro (⟨rfl,hfull⟩ | ⟨k,ho,hdraw,hle⟩)
        · exact ⟨0,rfl,by rw [Nat.add_zero]; omega,by omega⟩
        · refine ⟨k+1,?_,by rw [← hdraw]; congr 2; omega,hle⟩
          rw [drawn]
          omega
      · rintro ⟨k,ho,hdraw,hle⟩
        cases k with
        | zero =>
          rw [drawn,Nat.add_zero] at ho
          rw [Nat.add_zero] at hdraw
          exact .inl ⟨ho,by omega⟩
        | succ k =>
          rw [drawn] at ho
          refine .inr ⟨k,by omega,by rw [← hdraw]; congr 2; omega,hle⟩
    · constructor
      · intro h
        cases h
      · rintro ⟨k,ho,-,hle⟩
        omega

end Sequences

section Runs

variable {p : Platform} {r r' : Run}

def SameDraws (r r' : Run) : Prop := r'.chunks = r.chunks ∧ r'.rands = r.rands

theorem SameDraws.trans {r'' : Run} (h : SameDraws r r') (h' : SameDraws r' r'') :
    SameDraws r r'' := ⟨h'.1.trans h.1,h'.2.trans h.2⟩

theorem revoke_sameDraws {text : CString} {flags : RevokeFlags}
    (h : revoke p text flags r = .ok r') : SameDraws r r' := by
  rw [revoke,bind_eq_ok] at h
  obtain ⟨_,-,h⟩ := h
  rw [bind_unit_eq_ok] at h
  cases h.2
  exact ⟨rfl,rfl⟩

theorem openEpoch_sameDraws {paranoia : Int} {mode : Mode} {caps off csz : Nat}
    (h : openEpoch p paranoia mode caps off csz r = .ok r') : SameDraws r r' := by
  simp only [openEpoch,bind_eq_ok] at h
  obtain ⟨_,-,r₁,h₁,h⟩ := h
  have hsame := revoke_sameDraws h₁
  have hr : r' = r₁ := by
    split_ifs at h
    · rw [bind_unit_eq_ok,bind_unit_eq_ok] at h
      exact (Except.ok.inj h.2.2).symm
    · rw [bind_unit_eq_ok] at h
      exact (Except.ok.inj h.2).symm
    · rw [bind_unit_eq_ok] at h
      exact (Except.ok.inj h.2).symm
    · exact (Except.ok.inj h).symm
  rw [hr]
  exact hsame

theorem store_sameDraws {c : Capability} {ix : Nat} {v : Capability}
    (h : store r c ix v = .ok r') : SameDraws r r' := by
  simp only [store] at h
  split_ifs at h
  cases h
  exact ⟨rfl,rfl⟩

theorem putBack_sameDraws {csz : Nat} (h : putBack p csz r = .ok r') : SameDraws r r' := by
  rw [putBack,fill] at h
  refine foldlM_invariant (SameDraws r) ?_ ?_ h
  · exact fun _ _ _ hs hi => hs.trans (store_sameDraws hi)
  · exact ⟨rfl,rfl⟩

theorem round_sameDraws {paranoia : Int} {mode : Mode} {caps off csz : Nat} {x : Run ⊕ Run}
    (hi : mode ≠ .loadSplitInit) (hf : mode ≠ .loadSplitFini)
    (h : round p paranoia mode caps off csz r = .ok x) : ∃ r', x = .inr r' ∧ SameDraws r r' := by
  have hround : round p paranoia mode caps off csz r =
      openEpoch p paranoia mode caps off csz r >>= fun r =>
        (if mode = .loadSplit then lastPass p r else pure r) >>= fun r =>
          putBack p csz r >>= fun r => pure (.inr r) := by
    cases mode with
    | loadSplitInit => exact absurd rfl hi
    | loadSplitFini => exact absurd rfl hf
    | _ => rfl
  rw [hround] at h
  simp only [bind_eq_ok] at h
  obtain ⟨r₁,h₁,r₂,h₂,r₃,h₃,h⟩ := h
  cases h
  have hlast : SameDraws r₁ r₂ := by
    split_ifs at h₂
    · exact revoke_sameDraws h₂
    · cases h₂
      exact ⟨rfl,rfl⟩
  exact ⟨r₃,rfl,((openEpoch_sameDraws h₁).trans hlast).trans (putBack_sameDraws h₃)⟩

theorem libLoop_chunks {rand : Nat → Nat} {paranoia : Int} {mode : Mode} {caps off : Nat}
    (hi : mode ≠ .loadSplitInit) (hf : mode ≠ .loadSplitFini)
    (h : libLoop p rand paranoia mode caps off r = .ok r') :
    r'.chunks = r.chunks ++ randomChunks rand r.rands caps off := by
  induction hm : caps-off using Nat.strongRecOn generalizing off r with
  | ind m ih =>
    have hsize : ∀ rands left, chunkSize mode rand rands left =
        chunkSize .loadOnce rand rands left := by
      intro rands left
      cases mode with
      | loadSplitInit => exact absurd rfl hi
      | loadSplitFini => exact absurd rfl hf
      | _ => rfl
    rw [libLoop] at h
    rw [randomChunks]
    split_ifs at h ⊢ with hlt
    · have hpos : 0 < (chunkSize .loadOnce rand r.rands (caps-off)).1 := chunkSize_pos (by omega)
      simp only [hsize] at h ⊢
      cases hr : round p paranoia mode caps off (chunkSize .loadOnce rand r.rands (caps-off)).1
          (takeChunk p off (chunkSize .loadOnce rand r.rands (caps-off)).1
            (chunkSize .loadOnce rand r.rands (caps-off)).2 r) with
      | error e =>
        rw [hr] at h
        cases h
      | ok x =>
        obtain ⟨r₁,rfl,hsame⟩ := round_sameDraws hi hf hr
        rw [hr] at h
        rw [ih _ (by omega) h rfl,hsame.1,hsame.2]
        simp [takeChunk,chunkSize]
    · cases h
      simp

end Runs

theorem libRun_chunks {p : Platform} {rand : Nat → Nat} {paranoia : Int} {mode : Mode}
    {caps rands : Nat} {m : Machine} {r : Run} (hi : mode ≠ .loadSplitInit)
    (hf : mode ≠ .loadSplitFini) (h : libRun p rand paranoia mode caps m rands = .ok r) :
    r.chunks = randomChunks rand rands caps 0 := by
  simpa using libLoop_chunks hi hf h

theorem chunks_representable_iff (b : Capability) (hb : 4096 ∣ b.address) (rand : Nat → Nat)
    (rands caps : Nat) :
    (∀ off csz, (off,csz) ∈ randomChunks rand rands caps 0 →
      Representable (b.address+off*sizeofPtr) (csz*sizeofPtr)) ↔
      ∀ k, rand (rands+k)%1024 = 1023 → drawn rand rands k+1024 ≤ caps →
        Even (drawn rand rands k) := by
  constructor
  · intro h k hdraw hle
    have hmem : (drawn rand rands k,1024) ∈ randomChunks rand rands caps 0 :=
      full_mem_randomChunks.mpr ⟨k,(Nat.zero_add _).symm,hdraw,hle⟩
    exact (representable_chunk_iff hb (Nat.le_refl _)).mp (h _ _ hmem) rfl
  · intro h off csz hmem
    refine (representable_chunk_iff hb (randomChunks_le hmem)).mpr (fun hfull => ?_)
    subst hfull
    obtain ⟨k,rfl,hdraw,hle⟩ := full_mem_randomChunks.mp hmem
    rw [Nat.zero_add] at hle ⊢
    exact h k hdraw hle

/-- Each chunk of a run has exact bounds when each draw of 1023, made with 1024 capabilities
left, comes at an even offset, and only then. -/
theorem chunks_exact_iff (b : Capability) (hb : 4096 ∣ b.address) (rand : Nat → Nat)
    (rands caps : Nat) :
    (∀ off csz, (off,csz) ∈ randomChunks rand rands caps 0 → ExactChunk b off csz) ↔
      ∀ k, rand (rands+k)%1024 = 1023 → drawn rand rands k+1024 ≤ caps →
        Even (drawn rand rands k) := by
  rw [← chunks_representable_iff b hb]
  refine forall₃_congr fun off csz hmem => ?_
  rw [exactChunk_iff hb (randomChunks_le hmem),representable_chunk_iff hb (randomChunks_le hmem)]

def plainBlock : Capability := ⟨true,0x40000000,65536,0x40000000,-1,3⟩

theorem plainBlock_aligned : 4096 ∣ plainBlock.address := ⟨0x40000,rfl⟩

theorem chunks_exact_plain : 4096 ∣ plainBlock.address ∧
    ∀ off csz, (off,csz) ∈ randomChunks (fun _ => 511) 0 4096 0 → ExactChunk plainBlock off csz := by
  refine ⟨plainBlock_aligned,?_⟩
  refine (chunks_exact_iff plainBlock plainBlock_aligned (fun _ => 511) 0 4096).mpr ?_
  exact fun _ hdraw => absurd hdraw (by decide)

theorem chunk_marks_neighbours :
    (1,1024) ∈ randomChunks (fun n => if n = 1 then 1023 else 0) 0 4096 0 ∧
    ¬ Representable (plainBlock.address+1*sizeofPtr) (1024*sizeofPtr) ∧
    (roundedChunk plainBlock 1 1024).Covers (slot plainBlock 0) := by
  refine ⟨full_mem_randomChunks.mpr ⟨1,rfl,rfl,by decide⟩,?_,?_⟩
  · rw [representable_chunk_iff plainBlock_aligned (Nat.le_refl _)]
    decide
  · exact (roundedChunk_marks_neighbours plainBlock_aligned (by decide)).1

end CheriOsTest.Revoke
