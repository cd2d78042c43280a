import Mathlib
set_option autoImplicit false

/-! A table of open descriptors that keeps account of what was made and closed. -/

namespace CheriOsTest.DescriptorTable

structure Table (φ : Type) where
  live : Finset φ
  made : List φ
  closed : List φ

namespace Table

variable {φ : Type}

/-- The account begins with the table `fds`. -/
def look (fds : Finset φ) : Table φ := ⟨fds,[],[]⟩

/-- The account `u` comes after that of `t`. -/
def append (t u : Table φ) : Table φ := ⟨u.live,t.made ++ u.made,t.closed ++ u.closed⟩

theorem append_look (t : Table φ) : t.append (look t.live) = t := by
  simp [append,look]

/-- What is open or was closed is what there was at first or was made. -/
def Accounted (fds : Finset φ) (t : Table φ) : Prop :=
  t.live.val+(t.closed : Multiset φ) = fds.val+(t.made : Multiset φ)

section Account

variable {fds : Finset φ} {t : Table φ}

@[simp] theorem live_look : (look fds).live = fds := rfl

theorem Accounted.look : Accounted fds (look fds) := rfl

/-- The table is as it was at first exactly when what was made was closed, each once, and
nothing else was. -/
theorem Accounted.closed_perm_iff (h : Accounted fds t) : t.closed.Perm t.made ↔ t.live = fds := by
  rw [← Multiset.coe_eq_coe,← Finset.val_inj]
  rw [Accounted] at h
  constructor
  · intro hc
    rw [hc] at h
    exact add_right_cancel h
  · intro hl
    rw [hl] at h
    exact add_left_cancel h

end Account

variable [DecidableEq φ] {fds : Finset φ} {t : Table φ}

def pipe (t : Table φ) (p : φ × φ) : Table φ :=
  { t with
    live := insert p.1 (insert p.2 t.live)
    made := t.made ++ [p.1,p.2] }

/-- A `close` of what is not open does nothing. -/
def close (t : Table φ) (fd : φ) : Table φ :=
  if fd ∈ t.live then { t with live := t.live.erase fd, closed := t.closed ++ [fd] } else t

@[simp] theorem live_pipe (p : φ × φ) : (t.pipe p).live = insert p.1 (insert p.2 t.live) := rfl

@[simp] theorem live_close (fd : φ) : (t.close fd).live = t.live.erase fd := by
  rw [close]
  split_ifs with h
  · rfl
  · exact (Finset.erase_eq_of_notMem h).symm

theorem append_pipe (u : Table φ) (p : φ × φ) : (t.append u).pipe p = t.append (u.pipe p) := by
  simp [append,pipe]

theorem append_close (u : Table φ) (fd : φ) : (t.append u).close fd = t.append (u.close fd) := by
  by_cases h : fd ∈ u.live <;> simp [append,close,h]

theorem Accounted.pipe {p : φ × φ} (h : Accounted fds t) (h₁ : p.1 ∉ t.live) (h₂ : p.2 ∉ t.live)
    (hne : p.1 ≠ p.2) : Accounted fds (t.pipe p) := by
  have h₁' : p.1 ∉ insert p.2 t.live := by simp [h₁,hne]
  have hpair : ((t.made ++ [p.1,p.2] : List φ) : Multiset φ) = t.made+({p.1}+{p.2}) := by
    rw [← Multiset.coe_add]
    rfl
  rw [Accounted] at h ⊢
  rw [Table.pipe,hpair,Finset.insert_val_of_notMem h₁',Finset.insert_val_of_notMem h₂,
    ← Multiset.singleton_add,← Multiset.singleton_add,← add_assoc fds.val,← h]
  abel

theorem Accounted.close (h : Accounted fds t) (fd : φ) : Accounted fds (t.close fd) := by
  rw [Table.close]
  split_ifs with hfd
  · have hone : ((t.closed ++ [fd] : List φ) : Multiset φ) = t.closed+{fd} := by
      rw [← Multiset.coe_add]
      rfl
    have hlive : t.live.val = (t.live.erase fd).val+{fd} := by
      rw [Finset.erase_val,add_comm,Multiset.singleton_add,Multiset.cons_erase hfd]
    rw [Accounted,hlive] at h
    rw [Accounted,hone,← h]
    abel
  · exact h

end Table

end CheriOsTest.DescriptorTable
