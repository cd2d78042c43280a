import CheriOsTest.AdjacentMappings
set_option autoImplicit false

/-! Runs of the tests of invalid pointers on a kernel that checks the authority of pointers:
from the memory map, over the gap that the search finds in it, to the space that is left. -/

namespace CheriOsTest.CheriAbi
open CheriOsTest.AddressGap CheriOsTest.CStrings CheriOsTest.Programs CheriOsTest.Quarantine
open CheriOsTest.Revoke CheriOsTest.Views

variable {σ : Type}

section Steps

variable {k : VmKernel σ} {view : σ → Vm} {V V' : Vm} {α : Type} {a : α} {text : CString}

theorem leads_check {x : Except Stop α} (h : x = .ok a) : Leads view (check x) V a V := by
  rw [h]
  exact Leads.pure view V a

theorem leads_verify {c : Prop} [Decidable c] (h : c) :
    Leads view (check (verify c text)) V () V :=
  leads_check ((failIf_eq_ok _ _ _).mpr (not_not.mpr h))

theorem leads_checkCall {f : σ → Option α × σ}
    (h : ∀ s, view s = V → ∃ s', f s = (some a,s') ∧ view s' = V') :
    Leads view (checkCall text f) V a V' :=
  (Leads.call h).bind (leads_check rfl)

theorem leads_checkCall2 {f : σ → Option α × σ}
    (h : ∀ s, view s = V → ∃ s', f s = (some a,s') ∧ view s' = V') :
    Leads view (checkCall2 text f) V a V' :=
  (Leads.call h).bind (Leads.pure view V' a)

variable (hk : k.Checking view) {c : VmCall}
include hk

theorem VmKernel.Checking.leads_allowed (text : CString) (hs : c.Sensible k.pageSize V)
    (h : c.Allowed V) (hw : c.WholePages k.pageSize) :
    Leads view (checkVm k text c) V () (c.effect V) := by
  rintro s rfl
  obtain ⟨errno,s',hcall,hv⟩ := hk.allowed c s hs h hw
  refine ⟨s',?_,hv⟩
  simp [checkVm,check,checkSyscall,modifyGet,MonadStateOf.modifyGet,EStateM.modifyGet,EStateM.run,
    Bind.bind,EStateM.bind,Pure.pure,EStateM.pure,hcall]

theorem VmKernel.Checking.leads_rejected (hs : c.Sensible k.pageSize V) (h : ¬ c.Allowed V) :
    Leads view (checkCallError k text c (expectedErrno k)) V () V := by
  refine (Leads.call (a := (-1,expectedErrno k)) ?_).bind ((leads_verify rfl).bind (leads_check ?_))
  · rintro s rfl
    exact hk.rejected c s hs h
  · simp [checkErrno]

theorem VmKernel.Checking.leads_store {p : MapPtr} {attached : Option (Nat × Nat)}
    (h : p.Authorizes 1) (hp : V.space p.address.toNat = some ⟨.readWrite,attached⟩) :
    Leads view (storeByte k p) V () V := by
  rintro s rfl
  obtain ⟨s',hstore,hv⟩ := hk.store p s attached h hp
  refine ⟨s',?_,hv⟩
  simp [storeByte,hstore]

end Steps

/-- Whole pages that are free, for three mappings of length `len`. -/
structure Room (pageSize : UInt64) (V : Vm) (addr len : UInt64) : Prop where
  page : pageSize.toNat ∣ addr.toNat
  pages : pageSize.toNat ∣ len.toNat
  pos : 0 < len.toNat
  fits : addr.toNat+len.toNat+len.toNat+len.toNat ≤ 2^63
  free : V.Free addr.toNat (len.toNat+len.toNat+len.toNat)

def placed (addr len : UInt64) : AdjacentMappings :=
  ⟨.exactly addr len,.exactly (addr+len) len,.exactly (addr+len+len) len,len⟩

/-- What the tests rely on of the call that maps. -/
def MapAt.Maps (mapAt : MapAt σ) (pageSize : UInt64) (view : σ → Vm) (len : UInt64)
    (segments : Int → Option Nat) (attached : Nat → Option (Nat × Nat)) : Prop :=
  ∀ addr s, (view s).segments = segments → pageSize.toNat ∣ addr.toNat →
    (view s).Free addr.toNat len.toNat →
    ∃ s', mapAt.map addr s = (some (.exactly addr len),s') ∧
      view s' = (view s).onRange addr.toNat len.toNat fun _ => some ⟨.readWrite,attached addr.toNat⟩

/-- The three mappings have been given back. -/
def Vm.givenBack (V : Vm) (addr len : UInt64) : Vm :=
  ((V.close addr.toNat len.toNat).close (addr.toNat+len.toNat) len.toNat).close
    (addr.toNat+len.toNat+len.toNat) len.toNat

/-- The three mappings, with the access `prot` in the middle. -/
def Vm.mapped (V : Vm) (addr len : UInt64) (prot : Prot)
    (attached : Nat → Option (Nat × Nat)) : Vm :=
  V.adjacent addr.toNat len.toNat (some ⟨.readWrite,attached addr.toNat⟩)
    (some ⟨prot,attached (addr.toNat+len.toNat)⟩)
    (some ⟨.readWrite,attached (addr.toNat+len.toNat+len.toNat)⟩)

namespace Room

variable {k : VmKernel σ} {view : σ → Vm} {V : Vm} {addr len : UInt64}
  {attached : Nat → Option (Nat × Nat)} (h : Room k.pageSize V addr len)
include h

theorem second : (addr+len).toNat = addr.toNat+len.toNat := by
  have hfits := h.fits
  rw [UInt64.toNat_add]
  omega

theorem third : (addr+len+len).toNat = addr.toNat+len.toNat+len.toNat := by
  have hfits := h.fits
  rw [UInt64.toNat_add,h.second]
  omega

theorem mapAdjacent_leads {mapAt : MapAt σ}
    (hmap : mapAt.Maps k.pageSize view len V.segments attached) :
    Leads view (mapAdjacent k mapAt len addr) V (placed addr len)
      (V.mapped addr len .readWrite attached) := by
  have hfits := h.fits
  have hpage₂ : k.pageSize.toNat ∣ (addr+len).toNat := by
    rw [h.second]
    exact Nat.dvd_add h.page h.pages
  have hpage₃ : k.pageSize.toNat ∣ (addr+len+len).toNat := by
    rw [h.third,← h.second]
    exact Nat.dvd_add hpage₂ h.pages
  -- each call finds its own third of the room free
  have hfirst : ∀ s, view s = V.adjacent addr.toNat len.toNat none none none →
      ∃ s', mapAt.map addr s = (some (.exactly addr len),s') ∧ view s' =
        V.adjacent addr.toNat len.toNat (some ⟨.readWrite,attached addr.toNat⟩) none none := by
    intro s hs
    rw [← V.adjacent_first fun _ => some ⟨.readWrite,attached addr.toNat⟩,← hs]
    refine hmap addr s (by rw [hs]; rfl) h.page fun x hx hx' => ?_
    rw [hs,Vm.adjacent_at_first hx hx']
    exact ⟨rfl,(h.free x hx (by omega)).2⟩
  have hmiddle : ∀ s, view s = V.adjacent addr.toNat len.toNat
        (some ⟨.readWrite,attached addr.toNat⟩) none none →
      ∃ s', mapAt.map (addr+len) s = (some (.exactly (addr+len) len),s') ∧ view s' =
        V.adjacent addr.toNat len.toNat (some ⟨.readWrite,attached addr.toNat⟩)
          (some ⟨.readWrite,attached (addr.toNat+len.toNat)⟩) none := by
    intro s hs
    rw [← V.adjacent_middle fun _ => some ⟨.readWrite,attached (addr.toNat+len.toNat)⟩,← hs,
      ← h.second]
    refine hmap (addr+len) s (by rw [hs]; rfl) hpage₂ fun x hx hx' => ?_
    rw [h.second] at hx hx'
    rw [hs,Vm.adjacent_at_middle hx hx']
    exact ⟨rfl,(h.free x (by omega) (by omega)).2⟩
  have hlast : ∀ s, view s = V.adjacent addr.toNat len.toNat
        (some ⟨.readWrite,attached addr.toNat⟩)
        (some ⟨.readWrite,attached (addr.toNat+len.toNat)⟩) none →
      ∃ s', mapAt.map (addr+len+len) s = (some (.exactly (addr+len+len) len),s') ∧ view s' =
        V.mapped addr len .readWrite attached := by
    intro s hs
    rw [Vm.mapped,← V.adjacent_last fun _ =>
      some ⟨.readWrite,attached (addr.toNat+len.toNat+len.toNat)⟩,← hs,← h.third]
    refine hmap (addr+len+len) s (by rw [hs]; rfl) hpage₃ fun x hx hx' => ?_
    rw [h.third] at hx hx'
    rw [hs,Vm.adjacent_at_last hx hx']
    exact ⟨rfl,(h.free x (by omega) (by omega)).2⟩
  have hstart : Leads view (checkCall mapAt.text (mapAt.map addr)) V (.exactly addr len)
      (V.adjacent addr.toNat len.toNat (some ⟨.readWrite,attached addr.toNat⟩) none none) := by
    refine leads_checkCall fun s hs => hfirst s ?_
    rw [hs,h.free.adjacent rfl]
  exact hstart.bind ((leads_verify rfl).bind ((leads_checkCall2 hmiddle).bind
    ((leads_verify rfl).bind ((leads_verify rfl).bind ((leads_checkCall2 hlast).bind
      ((leads_verify rfl).bind ((leads_verify rfl).bind (Leads.pure view _ _))))))))

omit h in
theorem exactly_authorizes {n : Nat} : (MapPtr.exactly addr len).Authorizes n ↔ n ≤ len.toNat := by
  simp [MapPtr.Authorizes,MapPtr.exactly]

/-- None of the arguments has the authority for its length. -/
theorem invalidLengths_spec : ∀ args ∈ invalidLengths (placed addr len),
    ¬ args.ptr.Authorizes args.len.toNat := by
  have hfits := h.fits
  have hpos := h.pos
  simp only [invalidLengths,placed,List.forall_mem_cons,exactly_authorizes,UInt64.toNat_mul,
    UInt64.toNat_add,UInt64.reduceToNat]
  exact ⟨by omega,by omega,by simp⟩

theorem invalidPtrs_spec {n : Nat} (hn : 0 < n) : ∀ args ∈ invalidPtrs k (placed addr len),
    ¬ args.ptr.Authorizes n := by
  have hpos := h.pos
  have hsecond := h.second
  have hthird := h.third
  simp only [invalidPtrs,placed,List.forall_mem_cons,MapPtr.Authorizes,MapPtr.exactly,moved,
    UInt64.add_sub_cancel]
  exact ⟨by simp,by omega,by omega,by simp⟩

theorem invalid_spec : ∀ args ∈ invalidLengths (placed addr len) ++ invalidPtrs k (placed addr len),
    ¬ args.ptr.Authorizes args.len.toNat := by
  have hlens : ∀ args ∈ invalidPtrs k (placed addr len), args.len = len := by
    simp [invalidPtrs,placed]
  intro args hargs
  rcases List.mem_append.mp hargs with hargs | hargs
  · exact h.invalidLengths_spec args hargs
  · rw [hlens args hargs]
    exact h.invalidPtrs_spec h.pos args hargs

theorem write_leads (hk : k.Checking view) :
    ∀ args ∈ invalidLengths (placed addr len) ++ invalidPtrs k (placed addr len),
      Leads view (storeByte k args.written) (V.mapped addr len .readWrite attached) ()
        (V.mapped addr len .readWrite attached) := by
  have hpos := h.pos
  have hone : ∀ a : UInt64, (MapPtr.exactly a len).Authorizes 1 := fun a =>
    exactly_authorizes.mpr hpos
  have hfirst := hk.leads_store (V := V.mapped addr len .readWrite attached) (hone addr)
    (Vm.adjacent_at_first (le_refl _) (by simp [MapPtr.exactly,hpos]))
  have hmiddle := hk.leads_store (V := V.mapped addr len .readWrite attached) (hone (addr+len))
    (Vm.adjacent_at_middle h.second.ge (by simp [MapPtr.exactly,h.second,hpos]))
  have hlast := hk.leads_store (V := V.mapped addr len .readWrite attached) (hone (addr+len+len))
    (Vm.adjacent_at_last h.third.ge (by simp [MapPtr.exactly,h.third,hpos]))
  simp only [invalidLengths,invalidPtrs,placed,List.cons_append,List.nil_append,
    List.forall_mem_cons]
  exact ⟨hmiddle,hmiddle,hmiddle,hfirst,hlast,by simp⟩

/-- A call on whole mappings that are there. -/
theorem covers_first {W : Vm} {x : Access} {y z : Option Access} :
    (W.adjacent addr.toNat len.toNat (some x) y z).Covers k.pageSize (.exactly addr len) len :=
  ⟨h.page,h.pos,fun w hw hw' => by
    rw [Vm.adjacent_at_first (a := addr.toNat) hw hw']
    rfl⟩

theorem covers_middle {W : Vm} {x z : Option Access} {y : Access} :
    (W.adjacent addr.toNat len.toNat x (some y) z).Covers k.pageSize
      (.exactly (addr+len) len) len := by
  have hsecond := h.second
  refine ⟨?_,h.pos,fun w hw hw' => ?_⟩
  · simp only [MapPtr.exactly,hsecond]
    exact Nat.dvd_add h.page h.pages
  · simp only [MapPtr.exactly,hsecond] at hw hw'
    rw [Vm.adjacent_at_middle hw hw']
    rfl

theorem covers_last {W : Vm} {x y : Option Access} {z : Access} :
    (W.adjacent addr.toNat len.toNat x y (some z)).Covers k.pageSize
      (.exactly (addr+len+len) len) len := by
  have hthird := h.third
  refine ⟨?_,h.pos,fun w hw hw' => ?_⟩
  · simp only [MapPtr.exactly,hthird]
    exact Nat.dvd_add (Nat.dvd_add h.page h.pages) h.pages
  · simp only [MapPtr.exactly,hthird] at hw hw'
    rw [Vm.adjacent_at_last hw hw']
    rfl

theorem free_leads (hk : k.Checking view) (x y z : Access) :
    Leads view (freeAdjacentMappings k (placed addr len))
      (V.adjacent addr.toNat len.toNat (some x) (some y) (some z)) () (V.givenBack addr len) := by
  have hall : ∀ a : UInt64, (MapPtr.exactly a len).Authorizes len.toNat := fun a =>
    exactly_authorizes.mpr (le_refl _)
  have hfirst := hk.leads_allowed (cstr "munmap(mappings->first, mappings->maplen)")
    (c := .munmap (.exactly addr len) len) (h.covers_first (W := V) (x := x) (y := some y)
      (z := some z)) (hall addr) h.pages
  rw [VmCall.effect,MapPtr.exactly,Vm.giveBack_first] at hfirst
  have hmiddle := hk.leads_allowed (cstr "munmap(mappings->middle, mappings->maplen)")
    (c := .munmap (.exactly (addr+len) len) len)
    (h.covers_middle (W := V.close addr.toNat len.toNat) (x := none) (y := y) (z := some z))
    (hall _) h.pages
  simp only [VmCall.effect,MapPtr.exactly,h.second,Vm.giveBack_middle] at hmiddle
  have hlast := hk.leads_allowed (cstr "munmap(mappings->last, mappings->maplen)")
    (c := .munmap (.exactly (addr+len+len) len) len)
    (h.covers_last (W := (V.close addr.toNat len.toNat).close (addr.toNat+len.toNat) len.toNat)
      (x := none) (y := none) (z := z)) (hall _) h.pages
  simp only [VmCall.effect,MapPtr.exactly,h.third,Vm.giveBack_last] at hlast
  rw [h.free.adjacent (by rfl)] at hlast
  exact hfirst.bind (hmiddle.bind hlast)

/-- The segment is attached at each of the three mappings that are left. -/
theorem attached_first {W : Vm} {y z : Option Access} {p : MapPtr} (hp : p.address = addr) :
    (W.adjacent addr.toNat len.toNat (some ⟨.readWrite,some (addr.toNat,len.toNat)⟩) y z).Attached p
      .readWrite len.toNat := by
  subst hp
  exact ⟨h.pos,fun w hw hw' => Vm.adjacent_at_first hw hw'⟩

theorem attached_middle {W : Vm} {x z : Option Access} {p : MapPtr} (hp : p.address = addr+len) :
    (W.adjacent addr.toNat len.toNat x
      (some ⟨.readWrite,some (addr.toNat+len.toNat,len.toNat)⟩) z).Attached p .readWrite
        len.toNat := by
  refine ⟨h.pos,fun w hw hw' => ?_⟩
  rw [hp,h.second] at hw hw' ⊢
  exact Vm.adjacent_at_middle hw hw'

theorem attached_last {W : Vm} {x y : Option Access} {p : MapPtr} (hp : p.address = addr+len+len) :
    (W.adjacent addr.toNat len.toNat x y
      (some ⟨.readWrite,some (addr.toNat+len.toNat+len.toNat,len.toNat)⟩)).Attached p .readWrite
        len.toNat := by
  refine ⟨h.pos,fun w hw hw' => ?_⟩
  rw [hp,h.third] at hw hw' ⊢
  exact Vm.adjacent_at_last hw hw'

theorem freeShm_leads (hk : k.Checking view) :
    Leads view (freeAdjacentMappingsShm k (placed addr len))
      (V.mapped addr len .readWrite fun x => some (x,len.toNat)) () (V.givenBack addr len) := by
  have hdetach : ∀ (W : Vm) (a : UInt64) text,
      W.Attached (.exactly a len) .readWrite len.toNat →
      Leads view (checkVm k text (.shmdt (.exactly a len))) W ()
        (W.giveBack a.toNat len.toNat) := by
    intro W a text hW
    have hallowed : (VmCall.shmdt (.exactly a len)).Allowed W := by
      intro prot n hn
      have heq : n = len.toNat := by
        have hhere := hn.here.symm.trans hW.here
        simp at hhere
        exact hhere.2
      rw [heq]
      exact exactly_authorizes.mpr (le_refl _)
    have hstep := hk.leads_allowed text (c := .shmdt (.exactly a len)) ⟨_,_,hW⟩ hallowed trivial
    rwa [VmCall.effect_shmdt hW.here] at hstep
  have hfirst := hdetach _ _ (cstr "shmdt(mappings->first)") (h.attached_first (W := V)
    (y := some ⟨.readWrite,some (addr.toNat+len.toNat,len.toNat)⟩)
    (z := some ⟨.readWrite,some (addr.toNat+len.toNat+len.toNat,len.toNat)⟩) rfl)
  rw [Vm.giveBack_first] at hfirst
  have hmiddle := hdetach _ _ (cstr "shmdt(mappings->middle)") (h.attached_middle
    (W := V.close addr.toNat len.toNat) (x := none)
    (z := some ⟨.readWrite,some (addr.toNat+len.toNat+len.toNat,len.toNat)⟩) rfl)
  rw [h.second,Vm.giveBack_middle] at hmiddle
  have hlast := hdetach _ _ (cstr "shmdt(mappings->last)") (h.attached_last
    (W := (V.close addr.toNat len.toNat).close (addr.toNat+len.toNat) len.toNat)
    (x := none) (y := none) rfl)
  rw [h.third,Vm.giveBack_last,h.free.adjacent (by rfl)] at hlast
  exact hfirst.bind (hmiddle.bind hlast)

/-- The arguments without authority are about the three mappings all the same. -/
theorem invalid_covers {prot : Prot} :
    ∀ args ∈ invalidLengths (placed addr len) ++ invalidPtrs k (placed addr len),
      (V.mapped addr len prot attached).Covers k.pageSize args.ptr args.len := by
  have hfits := h.fits
  have hpos := h.pos
  have hsecond := h.second
  have hthird := h.third
  have hpage₂ : k.pageSize.toNat ∣ (addr+len).toNat := by
    rw [hsecond]
    exact Nat.dvd_add h.page h.pages
  have hpage₃ : k.pageSize.toNat ∣ (addr+len+len).toNat := by
    rw [hthird,← hsecond]
    exact Nat.dvd_add hpage₂ h.pages
  have hcovers : ∀ (p : MapPtr) (n : UInt64), k.pageSize.toNat ∣ p.address.toNat → 0 < n.toNat →
      addr.toNat ≤ p.address.toNat → p.address.toNat+n.toNat ≤ addr.toNat+len.toNat+len.toNat+
        len.toNat → (V.mapped addr len prot attached).Covers k.pageSize p n := by
    intro p n hp hn ha hle
    refine ⟨hp,hn,fun x hx hx' => ?_⟩
    by_cases h₁ : x < addr.toNat+len.toNat
    · rw [Vm.mapped,Vm.adjacent_at_first (by omega) h₁]
      rfl
    · by_cases h₂ : x < addr.toNat+len.toNat+len.toNat
      · rw [Vm.mapped,Vm.adjacent_at_middle (by omega) h₂]
        rfl
      · rw [Vm.mapped,Vm.adjacent_at_last (by omega) (by omega)]
        rfl
  have htwice : (len*2).toNat = len.toNat*2 := by
    simp only [UInt64.toNat_mul,UInt64.reduceToNat]
    omega
  have hmore : (len+1).toNat = len.toNat+1 := by
    simp only [UInt64.toNat_add,UInt64.reduceToNat]
    omega
  simp only [invalidLengths,invalidPtrs,placed,moved,MapPtr.exactly,UInt64.add_sub_cancel,
    List.cons_append,List.nil_append,List.forall_mem_cons]
  exact ⟨hcovers _ _ hpage₂ (by omega) (by simp only; omega) (by simp only; omega),
    hcovers _ _ hpage₂ (by omega) (by simp only; omega) (by simp only; omega),
    hcovers _ _ hpage₂ (by omega) (by simp only; omega) (by simp only; omega),
    hcovers _ _ h.page (by omega) (by simp only; omega) (by simp only; omega),
    hcovers _ _ hpage₃ (by omega) (by simp only; omega) (by simp only; omega),by simp⟩

theorem invalidPtrs_attached : ∀ args ∈ invalidPtrs k (placed addr len),
    (V.mapped addr len .readWrite fun x => some (x,len.toNat)).Attached args.ptr .readWrite
      len.toNat := by
  simp only [invalidPtrs,placed,List.forall_mem_cons]
  refine ⟨h.attached_middle rfl,h.attached_first ?_,h.attached_last rfl,by simp⟩
  simp [moved,MapPtr.exactly]

/-- The loop of a test over arguments without authority. -/
theorem rejected_leads (hk : k.Checking view) (call : MapPtr → UInt64 → VmCall)
    (text : InvalidArgs → CString) {argss : List InvalidArgs}
    (hargss : ∀ args ∈ argss,
      args ∈ invalidLengths (placed addr len) ++ invalidPtrs k (placed addr len))
    (hcall : ∀ args ∈ argss,
      (call args.ptr args.len).Sensible k.pageSize (V.mapped addr len .readWrite attached) ∧
        ¬ (call args.ptr args.len).Allowed (V.mapped addr len .readWrite attached)) :
    Leads view (argss.forM (checkRejectedThenWrite k call text))
        (V.mapped addr len .readWrite attached) () (V.mapped addr len .readWrite attached) ∧
      Leads view (argss.forM (checkRejected k call text (expectedErrno k)))
        (V.mapped addr len .readWrite attached) () (V.mapped addr len .readWrite attached) := by
  constructor
  · refine Leads.forM fun args hargs => ?_
    obtain ⟨hsensible,hnot⟩ := hcall args hargs
    exact (hk.leads_rejected hsensible hnot).bind (h.write_leads hk args (hargss args hargs))
  · refine Leads.forM fun args hargs => ?_
    obtain ⟨hsensible,hnot⟩ := hcall args hargs
    exact hk.leads_rejected hsensible hnot

theorem invalid_calls {prot : Prot} :
    ∀ args ∈ invalidLengths (placed addr len) ++ invalidPtrs k (placed addr len),
      (V.mapped addr len prot attached).Covers k.pageSize args.ptr args.len ∧
        ¬ args.ptr.Authorizes args.len.toNat :=
  fun args hargs => ⟨h.invalid_covers args hargs,h.invalid_spec args hargs⟩

theorem munmap_leads (hk : k.Checking view) :
    Leads view (do
      (invalidLengths (placed addr len) ++ invalidPtrs k (placed addr len)).forM
        (checkRejectedThenWrite k .munmap (callText "munmap" ""))
      freeAdjacentMappings k (placed addr len))
      (V.mapped addr len .readWrite fun _ => none) () (V.givenBack addr len) :=
  (h.rejected_leads hk .munmap (callText "munmap" "") (fun _ => id) h.invalid_calls).1.bind
    (h.free_leads hk _ _ _)

theorem mprotect_leads (hk : k.Checking view) :
    Leads view (do
      (invalidLengths (placed addr len) ++ invalidPtrs k (placed addr len)).forM
        (checkRejectedThenWrite k (fun p len => .mprotect p len .none)
          (callText "mprotect" ", PROT_NONE"))
      checkVm k (cstr "mprotect(mappings.middle, mappings.maplen, PROT_NONE)")
        (.mprotect (.exactly (addr+len) len) len .none)
      checkVm k (cstr "mprotect(mappings.middle, mappings.maplen, PROT_READ)")
        (.mprotect (.exactly (addr+len) len) len .read)
      freeAdjacentMappings k (placed addr len))
      (V.mapped addr len .readWrite fun _ => none) () (V.givenBack addr len) := by
  have hprotect : ∀ text old new,
      Leads view (checkVm k text (.mprotect (.exactly (addr+len) len) len new))
        (V.mapped addr len old fun _ => none) () (V.mapped addr len new fun _ => none) := by
    intro text old new
    have hstep := hk.leads_allowed text (V := V.mapped addr len old fun _ => none)
      (c := .mprotect (.exactly (addr+len) len) len new) h.covers_middle
      (exactly_authorizes.mpr (le_refl _)) h.pages
    simp only [VmCall.effect,MapPtr.exactly,h.second,Vm.mapped,Vm.adjacent_middle] at hstep
    exact hstep
  exact (h.rejected_leads hk (fun p len => .mprotect p len .none)
      (callText "mprotect" ", PROT_NONE") (fun _ => id) h.invalid_calls).1.bind
    ((hprotect _ .readWrite .none).bind ((hprotect _ .none .read).bind (h.free_leads hk _ _ _)))

theorem minherit_leads (hk : k.Checking view) (hos : k.os = .freeBSD) :
    Leads view (do
      (invalidLengths (placed addr len) ++ invalidPtrs k (placed addr len)).forM
        (checkRejected k (fun p len => .minherit p len .none) (callText "minherit" ", INHERIT_NONE")
          k.EPROT)
      checkVm k (cstr "minherit(mappings.middle, mappings.maplen, INHERIT_NONE)")
        (.minherit (.exactly (addr+len) len) len .none)
      checkVm k (cstr "minherit(mappings.middle, mappings.maplen, INHERIT_SHARE)")
        (.minherit (.exactly (addr+len) len) len .share)
      freeAdjacentMappings k (placed addr len))
      (V.mapped addr len .readWrite fun _ => none) () (V.givenBack addr len) := by
  have hinherit : ∀ text inherit,
      Leads view (checkVm k text (.minherit (.exactly (addr+len) len) len inherit))
        (V.mapped addr len .readWrite fun _ => none) ()
        (V.mapped addr len .readWrite fun _ => none) :=
    fun text inherit => hk.leads_allowed text (c := .minherit (.exactly (addr+len) len) len inherit)
      h.covers_middle (exactly_authorizes.mpr (le_refl _)) h.pages
  have herrno : k.EPROT = expectedErrno k := by rw [expectedErrno,hos]
  rw [herrno]
  exact (h.rejected_leads hk (fun p len => .minherit p len .none)
    (callText "minherit" ", INHERIT_NONE") (fun _ => id) h.invalid_calls).2.bind
    ((hinherit _ _).bind ((hinherit _ _).bind (h.free_leads hk _ _ _)))

theorem shmdt_leads (hk : k.Checking view) :
    Leads view (do
      (invalidPtrs k (placed addr len)).forM (checkRejectedThenWrite k (fun p _ => .shmdt p)
        (fun args => cstr "shmdt(" ++ args.ptrText ++ cstr ")"))
      freeAdjacentMappingsShm k (placed addr len))
      (V.mapped addr len .readWrite fun x => some (x,len.toNat)) () (V.givenBack addr len) := by
  refine (h.rejected_leads hk _ _ (fun args => List.mem_append_right _) ?_).1.bind
    (h.freeShm_leads hk)
  intro args hargs
  have hattached := h.invalidPtrs_attached (V := V) args hargs
  exact ⟨⟨_,_,hattached⟩,fun hauth => h.invalidPtrs_spec h.pos args hargs (hauth _ _ hattached)⟩

end Room

section Gap

variable {k : VmKernel σ} {map : MemoryMap} {len addr : UInt64} {Representable : Nat → Nat → Prop}

/-- A gap of the memory map that the search accepts for `len`. -/
def VmKernel.HasGap (k : VmKernel σ) (map : MemoryMap) (len : UInt64) : Prop :=
  ∃ x, Fits map (effective k.cheri len 0).1.toNat (effective k.cheri len 0).2.toNat x

/-- Either version stops at the least fit of some gap. -/
theorem search_least (hc : k.cheri.Architectural Representable)
    (h : k.search map.entries len = .ok addr) : ∃ a b, Search.Neighbours map.entries a b ∧
      IsLeast {y | FitsBetween a b (effective k.cheri len 0).1.toNat
        (effective k.cheri len 0).2.toNat y} addr.toNat := by
  obtain ⟨e,he',he⟩ : ∃ e, e < 64 ∧ (effective k.cheri len 0).2.toNat = 2^e :=
    effective_pow hc (.inl rfl)
  unfold VmKernel.search at h
  cases hos : k.os with
  | freeBSD =>
    rw [hos] at h
    obtain ⟨⟨a,b,hn,hfit⟩,hleast⟩ := freeBSD_found he he' h
    exact ⟨a,b,hn,hfit,fun y hy => hleast ⟨a,b,hn,hy⟩⟩
  | linux =>
    rw [hos] at h
    obtain ⟨a,b,hn,hleast,-⟩ := linux_found he he' h
    exact ⟨a,b,hn,hleast⟩

theorem search_cases (hc : k.cheri.Architectural Representable) (map : MemoryMap) (len : UInt64) :
    (k.HasGap map len ∧ ∃ addr, k.search map.entries len = .ok addr) ∨
      ¬ k.HasGap map len ∧ k.search map.entries len =
        .error (noFreeRegion (effective k.cheri len 0).1) := by
  obtain ⟨e,he',he⟩ : ∃ e, e < 64 ∧ (effective k.cheri len 0).2.toNat = 2^e :=
    effective_pow hc (.inl rfl)
  unfold VmKernel.search VmKernel.HasGap
  cases hos : k.os with
  | freeBSD =>
    have hfailed : (∃ message, findAddressSpaceGapFreeBSD k.cheri map.entries len 0 =
        .error message) ↔ ¬ _ := freeBSD_failed he he'
    rw [findAddressSpaceGapFreeBSD_eq he he'] at hfailed ⊢
    revert hfailed
    cases Search.firstNeighbours _ map.entries <;> simp
  | linux =>
    have hfailed : (∃ message, findAddressSpaceGapLinux k.cheri map.entries len 0 =
        .error message) ↔ ¬ _ := linux_failed he he'
    rw [findAddressSpaceGapLinux_eq he he'] at hfailed ⊢
    revert hfailed
    cases Search.firstNeighbours _ map.entries.reverse <;> simp

/-- The search aligns to what a capability needs, which may be less than a page. It is the
mappings that end at pages. -/
theorem search_page {p : Nat} (hc : k.cheri.Architectural Representable)
    (hp : k.pageSize.toNat = 2^p) (hstops : ∀ m ∈ map.entries, k.pageSize.toNat ∣ m.stop.toNat)
    (h : k.search map.entries len = .ok addr) : k.pageSize.toNat ∣ addr.toNat := by
  obtain ⟨e,-,he⟩ : ∃ e, e < 64 ∧ (effective k.cheri len 0).2.toNat = 2^e :=
    effective_pow hc (.inl rfl)
  obtain ⟨a,b,hn,⟨hd,ha,hb⟩,hleast⟩ := search_least hc h
  have hstop := hstops a hn.mem.1
  rcases Nat.le_total p e with hle | hle
  · rw [hp]
    rw [he] at hd
    exact (Nat.pow_dvd_pow 2 hle).trans hd
  · have hfit : (effective k.cheri len 0).2.toNat ∣ a.stop.toNat := by
      rw [he]
      rw [hp] at hstop
      exact (Nat.pow_dvd_pow 2 hle).trans hstop
    have haddr : addr.toNat ≤ a.stop.toNat := hleast ⟨hfit,le_refl _,by omega⟩
    rwa [Nat.le_antisymm haddr ha]

/-- The entries of the memory map are whole pages, and what lies between two of them is free. -/
structure Shows (k : VmKernel σ) (map : MemoryMap) (V : Vm) : Prop where
  stops : ∀ m ∈ map.entries, k.pageSize.toNat ∣ m.stop.toNat
  between : ∀ a b x, Search.Neighbours map.entries a b → a.stop.toNat ≤ x → x < b.start.toNat →
    V.space x = none ∧ x ∉ V.closed

theorem room_of_search {p : Nat} {V : Vm} (hc : k.cheri.Architectural Representable)
    (hp : k.pageSize.toNat = 2^p) (hp' : p ≤ 60) (hV : Shows k map V)
    (h : k.search map.entries (k.pageSize*2*3) = .ok addr) :
    Room k.pageSize V addr (k.pageSize*2) := by
  have hpow : 2^p ≤ 2^60 := Nat.pow_le_pow_right (by decide) hp'
  have hpos := Nat.two_pow_pos p
  have hlen : (k.pageSize*2).toNat = k.pageSize.toNat*2 := by
    simp only [UInt64.toNat_mul,UInt64.reduceToNat]
    omega
  have hlens : (k.pageSize*2*3).toNat = k.pageSize.toNat*2*3 := by
    simp only [UInt64.toNat_mul,UInt64.reduceToNat]
    omega
  have hgrow := (effective_spec hc (k.pageSize*2*3) 0).le (by omega)
  obtain ⟨a,b,hn,⟨-,ha,hb⟩,-⟩ := search_least hc h
  have hbstart := map.start_lt b hn.mem.2
  have hbstop := map.stop_le b hn.mem.2
  exact ⟨search_page hc hp hV.stops h,by rw [hlen]; exact Nat.dvd_mul_right _ _,by omega,by omega,
    fun x hx hx' => hV.between a b x hn (by omega) (by omega)⟩

end Gap

section Runs

variable {k : VmKernel σ} {view : σ → Vm} {s : σ} {addr : UInt64}

/-- The test passes, and `V` is what the process has afterwards. -/
def Passes (view : σ → Vm) (test : VmTest σ Unit) (s : σ) (V : Vm) : Prop :=
  ∃ s', test.run s = .ok () s' ∧ (view s').space = V.space ∧ (view s').segments = V.segments

def FailsWith (view : σ → Vm) (test : VmTest σ Unit) (s : σ) (e : Stop) (V : Vm) : Prop :=
  ∃ s', test.run s = .error e s' ∧ (view s').space = V.space ∧ (view s').segments = V.segments

/-- One more segment exists. -/
def Vm.withSegment (V : Vm) (id : Int) (len : UInt64) : Vm :=
  { V with segments := Function.update V.segments id (some len.toNat) }

theorem findGap_ok {len : UInt64} (h : k.search (k.maps s) len = .ok addr) :
    (findGap k len).run s = .ok addr s := by
  simp [findGap,check,h,Except.mapError]

theorem findGap_error {len : UInt64} {message : CString}
    (h : k.search (k.maps s) len = .error message) :
    (findGap k len).run s = .error (.errx message) s := by
  simp [findGap,check,h,Except.mapError]
  rfl

variable (hk : k.Checking view) (hroom : Room k.pageSize (view s) addr (k.pageSize*2))
include hk hroom

omit hroom in
theorem mmapFixed_maps : (mmapFixed k (k.pageSize*2)).Maps k.pageSize view (k.pageSize*2)
    (view s).segments fun _ => none :=
  fun addr t _ hpage hfree => hk.mmap addr t hpage hfree

omit hroom in
theorem shmatSegment_maps {id : Int} (hid : (view s).segments id = some (k.pageSize*2).toNat) :
    (shmatSegment k id).Maps k.pageSize view (k.pageSize*2) (view s).segments
      fun x => some (x,(k.pageSize*2).toNat) := by
  intro addr t ht hpage hfree
  exact hk.shmat id addr t (by rw [ht]; exact hid) hpage hfree

theorem create_run (h : k.search (k.maps s) (k.pageSize*2*3) = .ok addr) :
    ∃ s', (createAdjacentMappings k).run s = .ok (placed addr (k.pageSize*2)) s' ∧
      view s' = (view s).mapped addr (k.pageSize*2) .readWrite fun _ => none :=
  Leads.after (findGap_ok h) (hroom.mapAdjacent_leads (mmapFixed_maps hk))

theorem attach_run {id : Int} (hid : (view s).segments id = some (k.pageSize*2).toNat)
    (h : k.search (k.maps s) (k.pageSize*2*3) = .ok addr) :
    ∃ s', (findGap k (k.pageSize*2*3) >>= mapAdjacent k (shmatSegment k id) (k.pageSize*2)).run s =
        .ok (placed addr (k.pageSize*2)) s' ∧
      view s' = (view s).mapped addr (k.pageSize*2) .readWrite
        fun x => some (x,(k.pageSize*2).toNat) :=
  Leads.after (findGap_ok h) (hroom.mapAdjacent_leads (shmatSegment_maps hk hid))

end Runs

theorem createShm_run {k : VmKernel σ} {s t : σ} {id : Int}
    (h : k.shmget (k.pageSize*2) s = (some id,t)) : (createAdjacentMappingsShm k).run s =
      (findGap k (k.pageSize*2*3) >>= mapAdjacent k (shmatSegment k id) (k.pageSize*2)).run t := by
  simp [createAdjacentMappingsShm,checkCall,check,checkSyscall,h,modifyGet,MonadStateOf.modifyGet,
    EStateM.modifyGet,EStateM.run,Bind.bind,EStateM.bind,Pure.pure,EStateM.pure]

/-- What the test says of a segment that it does not get. -/
def shmgetFailed : Stop :=
  .err (cstr "Call '" ++ cstr "shmget(IPC_PRIVATE, len, 0600)" ++ cstr "' failed")

theorem createShm_failed {k : VmKernel σ} {s t : σ} (h : k.shmget (k.pageSize*2) s = (none,t)) :
    (createAdjacentMappingsShm k).run s = .error shmgetFailed t := by
  refine run_bind_error ?_
  simp [checkCall,check,checkSyscall,h,modifyGet,MonadStateOf.modifyGet,EStateM.modifyGet,
    EStateM.run,Bind.bind,EStateM.bind]
  rfl

/-- On a kernel that checks pointers all of the tests pass wherever the address space has a
gap for the three mappings, and leave none of them behind; without a gap they stop before the
first mapping. Either way the shared segment stays behind, unless the test did not get one. -/
theorem invalid_ptr_tests_spec (k : VmKernel σ) (view : σ → Vm) (hk : k.Checking view)
    (Representable : Nat → Nat → Prop) (hc : k.cheri.Architectural Representable) (p : Nat)
    (hp : k.pageSize.toNat = 2^p) (hp' : p ≤ 60) (map : MemoryMap) (s : σ)
    (hmaps : k.maps s = map.entries) (hV : Shows k map (view s)) :
    let len := k.pageSize*2
    let noGap := Stop.errx (noFreeRegion (effective k.cheri (len*3) 0).1)
    (k.HasGap map (len*3) →
      Passes view (cheriabiMunmapInvalidPtr k) s (view s) ∧
      Passes view (cheriabiMprotectInvalidPtr k) s (view s) ∧
      (k.os = .freeBSD → Passes view (cheriabiMinheritInvalidPtr k) s (view s)) ∧
      ∀ id t, k.shmget len s = (some id,t) → (view s).segments id = none ∧
        Passes view (cheriabiShmdtInvalidPtr k) s ((view s).withSegment id len)) ∧
    (¬ k.HasGap map (len*3) →
      FailsWith view (cheriabiMunmapInvalidPtr k) s noGap (view s) ∧
      FailsWith view (cheriabiMprotectInvalidPtr k) s noGap (view s) ∧
      FailsWith view (cheriabiMinheritInvalidPtr k) s noGap (view s) ∧
      ∀ id t, k.shmget len s = (some id,t) → (view s).segments id = none ∧
        FailsWith view (cheriabiShmdtInvalidPtr k) s noGap ((view s).withSegment id len)) ∧
    ∀ t, k.shmget len s = (none,t) →
      FailsWith view (cheriabiShmdtInvalidPtr k) s shmgetFailed (view s) := by
  intro len noGap
  have hpasses : ∀ (test : VmTest σ Unit) (V : Vm) addr,
      (∃ s', test.run s = .ok () s' ∧ view s' = V.givenBack addr len) →
      Passes view test s V := by
    rintro test V addr ⟨s',hrun,hv⟩
    exact ⟨s',hrun,by rw [hv]; rfl,by rw [hv]; rfl⟩
  refine ⟨fun hgap => ?_,fun hgap => ?_,fun t hget => ?_⟩
  · obtain ⟨addr,hsearch⟩ := ((search_cases hc map (len*3)).resolve_right fun h => h.1 hgap).2
    have hroom := room_of_search hc hp hp' hV hsearch
    obtain ⟨u,hu,hmapped⟩ := create_run hk hroom (by rw [hmaps]; exact hsearch)
    refine ⟨hpasses _ _ addr (Leads.after hu ?_),hpasses _ _ addr (Leads.after hu ?_),
      fun hos => hpasses _ _ addr (Leads.after hu ?_),fun id t hget => ?_⟩
    · rw [hmapped]
      exact hroom.munmap_leads hk
    · rw [hmapped]
      exact hroom.mprotect_leads hk
    · rw [hmapped]
      exact hroom.minherit_leads hk hos
    · obtain ⟨hnew,hmaps',hview⟩ := hk.shmget s id t hget
      have hV' : Shows k map (view t) := ⟨hV.stops,by rw [hview]; exact hV.between⟩
      have hroom' := room_of_search hc hp hp' hV' hsearch
      have hid : (view t).segments id = some (k.pageSize*2).toNat := by simp [hview]
      obtain ⟨w,hw,hattached⟩ := attach_run hk hroom' hid (by rw [hmaps',hmaps]; exact hsearch)
      rw [← createShm_run hget] at hw
      refine ⟨hnew,hpasses _ _ addr ?_⟩
      rw [Vm.withSegment,← hview]
      refine Leads.after hw ?_
      rw [hattached]
      exact hroom'.shmdt_leads hk
  · have hsearch := ((search_cases hc map (len*3)).resolve_left fun h => hgap h.1).2
    have hstop := run_bind_error (k := mapAdjacent k (mmapFixed k len) len)
      (findGap_error (k := k) (s := s) (by rw [hmaps]; exact hsearch))
    refine ⟨⟨s,run_bind_error hstop,rfl,rfl⟩,⟨s,run_bind_error hstop,rfl,rfl⟩,
      ⟨s,run_bind_error hstop,rfl,rfl⟩,fun id t hget => ?_⟩
    obtain ⟨hnew,hmaps',hview⟩ := hk.shmget s id t hget
    have hstop' := run_bind_error (k := mapAdjacent k (shmatSegment k id) len)
      (findGap_error (k := k) (s := t) (by rw [hmaps',hmaps]; exact hsearch))
    rw [← createShm_run hget] at hstop'
    exact ⟨hnew,t,run_bind_error hstop',by rw [hview]; rfl,by rw [hview]; rfl⟩
  · have hview := hk.shmget_none s t hget
    exact ⟨t,run_bind_error (createShm_failed hget),by rw [hview],by rw [hview]⟩

section Plain

instance (p : MapPtr) (n : Nat) : Decidable (p.Authorizes n) :=
  inferInstanceAs (Decidable (_ ∧ _ ∧ _))

/-- The check of the calls, by the segment that is attached at the address. -/
def VmCall.authorized (V : Vm) : VmCall → Bool
  | .munmap p len => p.Authorizes len.toNat
  | .mprotect p len _ => p.Authorizes len.toNat
  | .minherit p len _ => p.Authorizes len.toNat
  | .shmdt p => match V.space p.address.toNat with
    | some ⟨_,some (_,n)⟩ => p.Authorizes n
    | _ => false

theorem authorized_iff {V : Vm} {pageSize : UInt64} {c : VmCall} (h : c.Sensible pageSize V) :
    c.authorized V = true ↔ c.Allowed V := by
  cases c with
  | munmap p len => exact decide_eq_true_iff
  | mprotect p len prot => exact decide_eq_true_iff
  | minherit p len inherit => exact decide_eq_true_iff
  | shmdt p =>
    obtain ⟨prot,n,hn⟩ := h
    simp only [VmCall.authorized,VmCall.Allowed,hn.here,decide_eq_true_iff]
    refine ⟨fun hauth prot' n' hn' => ?_,fun hauth => hauth _ _ hn⟩
    have heq := hn.here.symm.trans hn'.here
    simp at heq
    rwa [← heq.2]

theorem effect_segments (V : Vm) (c : VmCall) : (c.effect V).segments = V.segments := by
  cases c with
  | shmdt p =>
    simp only [VmCall.effect]
    split <;> rfl
  | munmap p len => rfl
  | mprotect p len prot => rfl
  | minherit p len inherit => rfl

/-- The state of a kernel that numbers its segments. -/
structure PlainVm where
  vm : Vm
  next : Int
  fresh : ∀ id, next ≤ id → vm.segments id = none

def PlainVm.attach (s : PlainVm) (addr len : UInt64) (attached : Option (Nat × Nat)) : PlainVm where
  vm := s.vm.onRange addr.toNat len.toNat fun _ => some ⟨.readWrite,attached⟩
  next := s.next
  fresh := s.fresh

def PlainVm.addSegment (s : PlainVm) (len : UInt64) : PlainVm where
  vm := s.vm.withSegment s.next len
  next := s.next+1
  fresh id hid := by
    have hne : id ≠ s.next := by omega
    simp [Vm.withSegment,hne,s.fresh id (by omega)]

def plainVmKernel : VmKernel PlainVm where
  os := .freeBSD
  EPROT := 98
  pageSize := 0x1000
  cheri := uncompressed
  keepsTag _ _ := true
  fmtP addr := cstr "0x" ++ fmtLx addr.toNat
  strerror _ := none
  maps _ := threeMappings.entries
  mmap addr len s := (some (.exactly addr len),s.attach addr len none)
  shmget len s := (some s.next,s.addSegment len)
  shmat id addr s :=
    let len := UInt64.ofNat ((s.vm.segments id).getD 0)
    (some (.exactly addr len),s.attach addr len (some (addr.toNat,len.toNat)))
  call c s :=
    if c.authorized s.vm then
      ((0,0),⟨c.effect s.vm,s.next,by rw [effect_segments]; exact s.fresh⟩)
    else ((-1,98),s)
  store _ s := some s

theorem plainVmKernel_checking : plainVmKernel.Checking PlainVm.vm where
  mmap addr s _ _ := ⟨_,rfl,rfl⟩
  shmget s id t h := by
    cases h
    exact ⟨s.fresh _ (le_refl _),rfl,rfl⟩
  shmget_none s t h := by cases h
  shmat id addr s hid _ _ := by
    refine ⟨s.attach addr (plainVmKernel.pageSize*2)
      (some (addr.toNat,(plainVmKernel.pageSize*2).toNat)),?_,rfl⟩
    have hlen : UInt64.ofNat ((s.vm.segments id).getD 0) = plainVmKernel.pageSize*2 := by
      rw [hid]
      rfl
    change (some (MapPtr.exactly addr (UInt64.ofNat ((s.vm.segments id).getD 0))),_) = _
    rw [hlen]
  allowed c s hs hc _ := ⟨0,_,if_pos ((authorized_iff hs).mpr hc),rfl⟩
  rejected c s hs hc := ⟨_,if_neg (mt (authorized_iff hs).mp hc),rfl⟩
  store p s attached _ _ := ⟨s,rfl,rfl⟩

/-- Nothing can be mapped where the map shows a mapping. -/
def plainVm : PlainVm where
  vm := ⟨fun _ => none,{x | ∃ m ∈ threeMappings.entries, m.Covers x},fun _ => none⟩
  next := 0
  fresh _ _ := rfl

theorem invalid_ptr_tests_plainVm :
    Passes PlainVm.vm (cheriabiMunmapInvalidPtr plainVmKernel) plainVm plainVm.vm ∧
      Passes PlainVm.vm (cheriabiMprotectInvalidPtr plainVmKernel) plainVm plainVm.vm ∧
      Passes PlainVm.vm (cheriabiMinheritInvalidPtr plainVmKernel) plainVm plainVm.vm ∧
      Passes PlainVm.vm (cheriabiShmdtInvalidPtr plainVmKernel) plainVm
        (plainVm.vm.withSegment 0 0x2000) := by
  have hshows : Shows plainVmKernel threeMappings plainVm.vm := by
    refine ⟨by decide,fun a b x hn ha hb => ⟨rfl,?_⟩⟩
    rintro ⟨m,hm,hc⟩
    have hfits : Fits threeMappings 1 1 x := ⟨a,b,hn,one_dvd x,ha,hb⟩
    exact hfits.free (le_refl x) (by omega) hm hc
  have hgap : plainVmKernel.HasGap threeMappings (plainVmKernel.pageSize*2*3) :=
    ⟨0x8000,⟨0x4800,0x8000⟩,⟨0x10000,0x11000⟩,⟨[⟨0x1000,0x3000⟩],[],rfl⟩,
      by decide,by decide,by decide⟩
  have h := (invalid_ptr_tests_spec plainVmKernel PlainVm.vm plainVmKernel_checking
    (fun _ _ => True) uncompressed_architectural 12 rfl (by decide) threeMappings plainVm rfl
    hshows).1 hgap
  exact ⟨h.1,h.2.1,h.2.2.1 rfl,(h.2.2.2 0 (plainVm.addSegment 0x2000) rfl).2⟩

end Plain

end CheriOsTest.CheriAbi
