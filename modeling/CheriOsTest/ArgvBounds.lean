import CheriOsTest.CStrings
import CheriOsTest.Programs
import CheriOsTest.Spans
set_option autoImplicit false

/-! The bounds of `argv` and `environ` in an exec'd child: each string against the next one
of its array, and the two vectors against each other. -/

namespace CheriOsTest.CheriAbi
open CheriOsTest.CStrings CheriOsTest.Programs CheriOsTest.Spans

/-- What `cheri_base_get`, `cheri_length_get` and `cheri_address_get` give. -/
structure BoundedPtr where
  base : UInt64
  length : UInt64
  address : UInt64

/-- A vector, and the strings in it before its NULL. -/
structure StringVector where
  ptr : BoundedPtr
  strings : List BoundedPtr

def isAddressInbounds (cap : BoundedPtr) (addr : UInt64) : Prop :=
  addr ≥ cap.base ∧ addr < cap.base+cap.length

instance (cap : BoundedPtr) (addr : UInt64) : Decidable (isAddressInbounds cap addr) :=
  inferInstanceAs (Decidable (_ ∧ _))

/-- The loop from index `i` on; `fmtPtr` is the conversion `%#p`. -/
def checkStringArrayBounds (fmtPtr : BoundedPtr → CString) (i : Nat) :
    List BoundedPtr → Except CString Unit
  | [] => .ok ()
  | arg :: rest => do
    failIf (¬ arg.base = arg.address)
      (cstr "unexpected argp[" ++ fmtD i ++ cstr "] addr and base " ++ fmtPtr arg)
    match rest with
    | [] => .ok ()
    | next :: _ =>
      failIf (¬ arg.base < next.base) (cstr "Invalid argp[" ++ fmtD i ++
        cstr "] base: expect " ++ fmtPtr arg ++ cstr " < " ++ fmtPtr next)
      failIf (¬ arg.base+arg.length ≤ next.base) (cstr "Invalid argp[" ++ fmtD i ++
        cstr "] top: " ++ fmtPtr arg ++ cstr " overlaps " ++ fmtPtr next)
      checkStringArrayBounds fmtPtr (i+1) rest

def checkVectors (fmtPtr : BoundedPtr → CString) (argv environ : BoundedPtr) :
    Except CString Unit := do
  let argvTop := argv.base+argv.length-1
  let envvTop := environ.base+environ.length-1
  failIf (¬ argv.base = argv.address) (cstr "invalid argv base " ++ fmtPtr argv)
  failIf (¬ environ.base = environ.address) (cstr "invalid envv base " ++ fmtPtr environ)
  failIf (¬ (¬ isAddressInbounds environ argvTop ∧ ¬ isAddressInbounds argv envvTop))
    (cstr "invalid argv bounds " ++ fmtPtr argv ++ cstr " overlaps envv " ++ fmtPtr environ)

/-- `cheriabi_check_argv_envv_bounds`, up to its `exit(0)`. -/
def checkArgvEnvvBounds (fmtPtr : BoundedPtr → CString) (argv environ : StringVector) :
    Except CString Unit := do
  checkVectors fmtPtr argv.ptr environ.ptr
  checkStringArrayBounds fmtPtr 0 argv.strings
  checkStringArrayBounds fmtPtr 0 environ.strings

namespace BoundedPtr

def range (p : BoundedPtr) : Set Nat := Set.Ico p.base.toNat (p.base.toNat+p.length.toNat)

/-- The capability has a byte, and its bounds do not wrap. -/
structure Proper (p : BoundedPtr) : Prop where
  nonempty : 0 < p.length.toNat
  fits : p.base.toNat+p.length.toNat < 2^64

def Below (p q : BoundedPtr) : Prop := p.base.toNat+p.length.toNat ≤ q.base.toNat

instance : Trans Below Below Below where
  trans {a b c} hab hbc := by
    unfold Below at *
    omega

theorem Below.disjoint {p q : BoundedPtr} (h : p.Below q) : Disjoint p.range q.range := by
  rw [range,range,Set.Ico_disjoint_Ico]
  exact (min_le_left _ _).trans (h.trans (le_max_right _ _))

theorem Proper.top {p : BoundedPtr} (h : p.Proper) :
    (p.base+p.length).toNat = p.base.toNat+p.length.toNat := by
  rw [UInt64.toNat_add,Nat.mod_eq_of_lt h.fits]

def Proper.span {p : BoundedPtr} (h : p.Proper) : Span Nat :=
  ⟨(p.base.toNat,p.base.toNat+p.length.toNat-1),by have hn := h.nonempty; dsimp only; omega⟩

theorem Proper.mem_span {p : BoundedPtr} (h : p.Proper) {x : Nat} : x ∈ h.span ↔ x ∈ p.range := by
  have hn := h.nonempty
  rw [Proper.span,NonemptyInterval.mem_mk,range,Set.mem_Ico]
  omega

theorem Proper.disjoint_iff {p q : BoundedPtr} (hp : p.Proper) (hq : q.Proper) :
    Disjoint p.range q.range ↔ ¬ hp.span.Meets hq.span := by
  rw [Set.disjoint_left,Span.Meets,not_exists]
  refine forall_congr' fun x => ?_
  rw [hp.mem_span,hq.mem_span,not_and]

theorem Proper.inbounds_iff {p q : BoundedPtr} (hp : p.Proper) (hq : q.Proper) :
    isAddressInbounds q (p.base+p.length-1) ↔ hp.span.snd ∈ hq.span := by
  have hn := hp.nonempty
  have hone : (1 : UInt64) ≤ p.base+p.length := by
    rw [UInt64.le_iff_toNat_le,hp.top]
    exact Nat.le_add_left_of_le hn
  have hlast : (p.base+p.length-1).toNat = p.base.toNat+p.length.toNat-1 := by
    rw [UInt64.toNat_sub_of_le _ _ hone,hp.top]
    rfl
  rw [hq.mem_span,isAddressInbounds,ge_iff_le,UInt64.le_iff_toNat_le,UInt64.lt_iff_toNat_lt,hlast,
    hq.top,range,Set.mem_Ico]
  rfl

end BoundedPtr

/-- Every pointer is at its own base, and the strings lie in order without sharing an address. -/
structure StringVector.Separated (v : StringVector) : Prop where
  atBase : ∀ p ∈ v.strings, p.address = p.base
  ordered : v.strings.Pairwise fun p q => p.base < q.base ∧ Disjoint p.range q.range

structure StringVector.Proper (v : StringVector) : Prop where
  ptr : v.ptr.Proper
  strings : ∀ p ∈ v.strings, p.Proper

theorem checkStringArrayBounds_eq_ok {fmtPtr : BoundedPtr → CString} {i : Nat}
    {strings : List BoundedPtr} (hp : ∀ p ∈ strings, p.Proper)
    (h : checkStringArrayBounds fmtPtr i strings = .ok ()) :
    (∀ p ∈ strings, p.address = p.base) ∧ strings.IsChain BoundedPtr.Below := by
  induction strings generalizing i with
  | nil => exact ⟨fun _ hm => absurd hm List.not_mem_nil,.nil⟩
  | cons arg rest ih =>
    cases rest with
    | nil =>
      rw [checkStringArrayBounds,failIf_bind_eq_ok,not_not] at h
      exact ⟨fun p hm => List.mem_singleton.mp hm ▸ h.1.symm,.singleton arg⟩
    | cons next rest =>
      rw [checkStringArrayBounds,failIf_bind_eq_ok,failIf_bind_eq_ok,failIf_bind_eq_ok,not_not,
        not_not,not_not] at h
      obtain ⟨hbase,-,htop,hrest⟩ := h
      obtain ⟨hbases,hchain⟩ := ih (fun p hm => hp p (List.mem_cons_of_mem arg hm)) hrest
      refine ⟨List.forall_mem_cons.mpr ⟨hbase.symm,hbases⟩,.cons_cons ?_ hchain⟩
      rw [UInt64.le_iff_toNat_le,(hp arg List.mem_cons_self).top] at htop
      exact htop

theorem StringVector.Proper.separated {v : StringVector} (hv : v.Proper)
    {fmtPtr : BoundedPtr → CString} (h : checkStringArrayBounds fmtPtr 0 v.strings = .ok ()) :
    v.Separated := by
  obtain ⟨hbase,hchain⟩ := checkStringArrayBounds_eq_ok hv.strings h
  refine ⟨hbase,hchain.pairwise.imp_of_mem fun {p q} hp _ hbelow => ⟨?_,hbelow.disjoint⟩⟩
  have hn := (hv.strings p hp).nonempty
  rw [UInt64.lt_iff_toNat_lt]
  unfold BoundedPtr.Below at hbelow
  omega

/-- A child that accepts its vectors has them separated; and two vectors that are each at
their base are accepted exactly when they share no address. -/
theorem argv_envv_separated (fmtPtr : BoundedPtr → CString) (argv environ : StringVector)
    (hargv : argv.Proper) (henv : environ.Proper) :
    (checkArgvEnvvBounds fmtPtr argv environ = .ok () → argv.Separated ∧ environ.Separated) ∧
    (argv.ptr.address = argv.ptr.base → environ.ptr.address = environ.ptr.base →
      (checkVectors fmtPtr argv.ptr environ.ptr = .ok () ↔
        Disjoint argv.ptr.range environ.ptr.range)) := by
  constructor
  · intro h
    rw [checkArgvEnvvBounds,bind_unit_eq_ok,bind_unit_eq_ok] at h
    exact ⟨hargv.separated h.2.1,henv.separated h.2.2⟩
  · intro hbase hbase'
    rw [checkVectors,failIf_bind_eq_ok,failIf_bind_eq_ok,failIf_eq_ok,not_not,not_not,not_not,
      hargv.ptr.inbounds_iff henv.ptr,henv.ptr.inbounds_iff hargv.ptr,
      hargv.ptr.disjoint_iff henv.ptr,meets_iff_lasts,not_or]
    exact ⟨fun h => h.2.2,fun h => ⟨hbase.symm,hbase'.symm,h⟩⟩

def plainArgv : StringVector := ⟨⟨0x1000,32,0x1000⟩,[⟨0x2000,5,0x2000⟩,⟨0x2005,3,0x2005⟩]⟩

def plainEnviron : StringVector := ⟨⟨0x1020,32,0x1020⟩,[⟨0x2008,7,0x2008⟩]⟩

theorem plainArgv_proper : plainArgv.Proper where
  ptr := ⟨by decide,by decide⟩
  strings := List.forall_mem_cons.mpr ⟨⟨by decide,by decide⟩,
    List.forall_mem_cons.mpr ⟨⟨by decide,by decide⟩,fun _ h => absurd h List.not_mem_nil⟩⟩

theorem plainEnviron_proper : plainEnviron.Proper where
  ptr := ⟨by decide,by decide⟩
  strings := List.forall_mem_cons.mpr ⟨⟨by decide,by decide⟩,fun _ h => absurd h List.not_mem_nil⟩

theorem argv_envv_separated_plain : plainArgv.Separated ∧ plainEnviron.Separated ∧
    Disjoint plainArgv.ptr.range plainEnviron.ptr.range := by
  have h := argv_envv_separated (fun _ => []) plainArgv plainEnviron plainArgv_proper
    plainEnviron_proper
  obtain ⟨hargv,henv⟩ := h.1 rfl
  exact ⟨hargv,henv,(h.2 rfl rfl).mp rfl⟩

end CheriOsTest.CheriAbi
