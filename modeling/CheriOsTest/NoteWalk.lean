import CheriOsTest.SetFeatureCtlNote
set_option autoImplicit false

/-! What the two loops of the search read. The positions the inner loop visits
are a relation on the file; the results of both loops are stated over it. -/

namespace CheriOsTest.Elf
open CheriOsTest.Bytes CheriOsTest.Programs

/-- The inner loop, started at `pos`, reads a note header at the second position. -/
inductive Visits (f : List UInt8) (stop : UInt64) : UInt64 → UInt64 → Prop where
  | here {pos : UInt64} : pos+12 ≤ stop → Visits f stop pos pos
  | next {pos pos' q : UInt64} : pos+12 ≤ stop → noteStep f pos = .ok (.inr pos') →
      Visits f stop pos' q → Visits f stop pos q

theorem Visits.le {f : List UInt8} {stop pos q : UInt64} (h : Visits f stop pos q) :
    pos.toNat ≤ q.toNat := by
  induction h with
  | here => exact Nat.le_refl _
  | next _ hs _ ih =>
    obtain ⟨-,h,-⟩ := noteStep_inr hs
    omega

theorem noteLoop_stop {f : List UInt8} {stop pos : UInt64} (h : ¬ pos+12 ≤ stop) :
    noteLoop f stop pos = .ok none := by
  rw [noteLoop,if_neg h]

theorem noteLoop_error {f : List UInt8} {stop pos : UInt64} (h : pos+12 ≤ stop) {e : Exit}
    (hs : noteStep f pos = .error e) : noteLoop f stop pos = .error e := by
  rw [noteLoop,if_pos h]
  split <;> simp_all

theorem noteLoop_inl {f : List UInt8} {stop pos : UInt64} (h : pos+12 ≤ stop) {off : Int}
    (hs : noteStep f pos = .ok (.inl off)) : noteLoop f stop pos = .ok (some off) := by
  rw [noteLoop,if_pos h]
  split <;> simp_all

theorem noteLoop_inr {f : List UInt8} {stop pos pos' : UInt64} (h : pos+12 ≤ stop)
    (hs : noteStep f pos = .ok (.inr pos')) :
    noteLoop f stop pos = noteLoop f stop pos' := by
  rw [noteLoop,if_pos h]
  split <;> simp_all

/-- The induction of the inner loop: the measure is what the file holds after the cursor. -/
theorem noteLoop_induction (f : List UInt8) (stop : UInt64) {P : UInt64 → Prop}
    (stopped : ∀ pos, ¬ pos+12 ≤ stop → P pos)
    (left : ∀ pos, pos+12 ≤ stop → (∀ pos', noteStep f pos ≠ .ok (.inr pos')) → P pos)
    (moved : ∀ pos pos', pos+12 ≤ stop → noteStep f pos = .ok (.inr pos') → P pos' → P pos)
    (pos : UInt64) : P pos := by
  induction hm : f.length-pos.toNat using Nat.strongRecOn generalizing pos with
  | ind m ih =>
    by_cases hp : pos+12 ≤ stop
    · by_cases hs : ∃ pos', noteStep f pos = .ok (.inr pos')
      · obtain ⟨pos',hs⟩ := hs
        obtain ⟨h₁,h₂,-⟩ := noteStep_inr hs
        exact moved pos pos' hp hs (ih (f.length-pos'.toNat) (by omega) pos' rfl)
      · exact left pos hp (fun pos' h => hs ⟨pos',h⟩)
    · exact stopped pos hp

theorem noteLoop_eq_some_iff (f : List UInt8) (stop pos : UInt64) (off : Int) :
    noteLoop f stop pos = .ok (some off) ↔
      ∃ q, Visits f stop pos q ∧ noteStep f q = .ok (.inl off) := by
  constructor
  · induction pos using noteLoop_induction f stop with
    | stopped pos hp => rw [noteLoop_stop hp]; intro h; cases h
    | left pos hp hs =>
      intro h
      cases hn : noteStep f pos with
      | error e => rw [noteLoop_error hp hn] at h; cases h
      | ok r =>
        cases r with
        | inl off' =>
          rw [noteLoop_inl hp hn] at h
          cases h
          exact ⟨pos,.here hp,hn⟩
        | inr pos' => exact absurd hn (hs pos')
    | moved pos pos' hp hs ih =>
      rw [noteLoop_inr hp hs]
      intro h
      obtain ⟨q,hv,hq⟩ := ih h
      exact ⟨q,.next hp hs hv,hq⟩
  · rintro ⟨q,hv,hq⟩
    induction hv with
    | here hp => exact noteLoop_inl hp hq
    | next hp hs _ ih => rw [noteLoop_inr hp hs]; exact ih hq

/-- Two files that agree on everything the inner loop reads take it the same way. -/
theorem noteLoop_congr {f g : List UInt8} {stop pos : UInt64}
    (h : ∀ q, Visits f stop pos q → noteStep g q = noteStep f q) :
    noteLoop g stop pos = noteLoop f stop pos := by
  induction pos using noteLoop_induction f stop with
  | stopped pos hp => rw [noteLoop_stop hp,noteLoop_stop hp]
  | left pos hp hs =>
    have hg := h pos (.here hp)
    cases hn : noteStep f pos with
    | error e => rw [noteLoop_error hp hn,noteLoop_error hp (hg.trans hn)]
    | ok r =>
      cases r with
      | inl off => rw [noteLoop_inl hp hn,noteLoop_inl hp (hg.trans hn)]
      | inr pos' => exact absurd hn (hs pos')
  | moved pos pos' hp hs ih =>
    rw [noteLoop_inr hp hs,noteLoop_inr hp ((h pos (.here hp)).trans hs)]
    exact ih (fun q hq => h q (.next hp hs hq))

/-- Program header `i` can be read and holds no match. -/
def Passes (f : List UInt8) (ehdr : Elf64Ehdr) (i : Nat) : Prop :=
  ∃ phdr, xpreadPhdr f ehdr i = .ok phdr ∧
    (phdr.pType = PT_NOTE → noteLoop f (phdr.pOffset+phdr.pFilesz) phdr.pOffset = .ok none)

/-- The search ends at the note header at `q`, in the segment of program header `i`. -/
structure FirstMatch (f : List UInt8) (ehdr : Elf64Ehdr) (i : Nat) (phdr : Elf64Phdr)
    (q : UInt64) : Prop where
  index : i < ehdr.ePhnum.toNat
  earlier : ∀ j < i, Passes f ehdr j
  header : xpreadPhdr f ehdr i = .ok phdr
  note : phdr.pType = PT_NOTE
  visits : Visits f (phdr.pOffset+phdr.pFilesz) phdr.pOffset q
  stops : noteStep f q = .ok (.inl (toOff (q+20)))

theorem phdrLoop_pass {f : List UInt8} {ehdr : Elf64Ehdr} {n i : Nat}
    (h : Passes f ehdr i) : phdrLoop f ehdr (n+1) i = phdrLoop f ehdr n (i+1) := by
  obtain ⟨phdr,hr,hn⟩ := h
  by_cases hp : phdr.pType = PT_NOTE
  · simp [phdrLoop,hr,hp,hn hp,bind,Except.bind]
  · simp [phdrLoop,hr,hp,bind,Except.bind]

theorem phdrLoop_match {f : List UInt8} {ehdr : Elf64Ehdr} {n i : Nat} {phdr : Elf64Phdr}
    {off : Int} (hr : xpreadPhdr f ehdr i = .ok phdr) (hp : phdr.pType = PT_NOTE)
    (hn : noteLoop f (phdr.pOffset+phdr.pFilesz) phdr.pOffset = .ok (some off)) :
    phdrLoop f ehdr (n+1) i = .ok off := by
  simp [phdrLoop,hr,hp,hn,bind,Except.bind]

/-- A header either passes, or stops the outer loop with its own result. -/
theorem phdrLoop_cases {f : List UInt8} {ehdr : Elf64Ehdr} {n i : Nat} {off : Int}
    (h : phdrLoop f ehdr (n+1) i = .ok off) :
    (Passes f ehdr i ∧ phdrLoop f ehdr n (i+1) = .ok off) ∨
      ∃ phdr, xpreadPhdr f ehdr i = .ok phdr ∧ phdr.pType = PT_NOTE ∧
        noteLoop f (phdr.pOffset+phdr.pFilesz) phdr.pOffset = .ok (some off) := by
  have h₀ := h
  rw [phdrLoop,bind_eq_ok] at h
  obtain ⟨phdr,hr,h⟩ := h
  split at h
  · rename_i hp
    exact .inl ⟨⟨phdr,hr,fun hq => absurd hq hp⟩,h⟩
  · rename_i hp
    simp only [ne_eq,not_not] at hp
    rw [bind_eq_ok] at h
    obtain ⟨r,hn,h⟩ := h
    cases r with
    | none => exact .inl ⟨⟨phdr,hr,fun _ => hn⟩,h⟩
    | some off' => cases h; exact .inr ⟨phdr,hr,hp,hn⟩

theorem phdrLoop_eq_ok {f : List UInt8} {ehdr : Elf64Ehdr} {n i : Nat} {off : Int}
    (h : phdrLoop f ehdr n i = .ok off) :
    (off = -1 ∧ ∀ j, i ≤ j → j < i+n → Passes f ehdr j) ∨
      ∃ j phdr, i ≤ j ∧ j < i+n ∧ (∀ k, i ≤ k → k < j → Passes f ehdr k) ∧
        xpreadPhdr f ehdr j = .ok phdr ∧ phdr.pType = PT_NOTE ∧
        noteLoop f (phdr.pOffset+phdr.pFilesz) phdr.pOffset = .ok (some off) := by
  induction n generalizing i with
  | zero => cases h; exact .inl ⟨rfl,fun j _ _ => by omega⟩
  | succ n ih =>
    rcases phdrLoop_cases h with ⟨hp,h⟩ | ⟨phdr,hr,hp,hn⟩
    · rcases ih h with ⟨ho,hall⟩ | ⟨j,phdr,h₁,h₂,hall,hrest⟩
      · refine .inl ⟨ho,fun j hj hj' => ?_⟩
        rcases Nat.eq_or_lt_of_le hj with rfl | hj
        · exact hp
        · exact hall j hj (by omega)
      · refine .inr ⟨j,phdr,by omega,by omega,fun k hk hk' => ?_,hrest⟩
        rcases Nat.eq_or_lt_of_le hk with rfl | hk
        · exact hp
        · exact hall k hk hk'
    · exact .inr ⟨i,phdr,Nat.le_refl i,by omega,fun k _ _ => by omega,hr,hp,hn⟩

theorem phdrLoop_skip {f : List UInt8} {ehdr : Elf64Ehdr} (m n i : Nat)
    (h : ∀ j, i ≤ j → j < i+m → Passes f ehdr j) :
    phdrLoop f ehdr (m+n) i = phdrLoop f ehdr n (i+m) := by
  induction m generalizing i with
  | zero => simp
  | succ m ih =>
    rw [show m+1+n = m+n+1 by omega,phdrLoop_pass (h i (Nat.le_refl i) (by omega)),
      ih (i+1) (fun j hj hj' => h j (by omega) (by omega)),show i+1+m = i+(m+1) by omega]

theorem findFeatureCtlDesc_of_match {f : List UInt8} {ehdr : Elf64Ehdr} {i : Nat}
    {phdr : Elf64Phdr} {q : UInt64} (h : FirstMatch f ehdr i phdr q) :
    findFeatureCtlDesc f ehdr = .ok (toOff (q+20)) := by
  have hi := h.index
  have hn : ehdr.ePhnum.toNat = i+((ehdr.ePhnum.toNat-i-1)+1) := by omega
  rw [findFeatureCtlDesc,hn,phdrLoop_skip _ _ _ (fun j _ hj => h.earlier j (by omega)),
    Nat.zero_add]
  exact phdrLoop_match h.header h.note ((noteLoop_eq_some_iff _ _ _ _).mpr ⟨q,h.visits,h.stops⟩)

/-- A search that returns has passed every header, or has met its first match. -/
theorem findFeatureCtlDesc_cases {f : List UInt8} {ehdr : Elf64Ehdr} {off : Int}
    (h : findFeatureCtlDesc f ehdr = .ok off) :
    (off = -1 ∧ ∀ j < ehdr.ePhnum.toNat, Passes f ehdr j) ∨
      ∃ i phdr q, FirstMatch f ehdr i phdr q ∧ off = toOff (q+20) := by
  rcases phdrLoop_eq_ok h with ⟨ho,hall⟩ | ⟨i,phdr,-,hi,hall,hr,hp,hn⟩
  · exact .inl ⟨ho,fun j hj => hall j (Nat.zero_le j) (by omega)⟩
  · obtain ⟨q,hv,hs⟩ := (noteLoop_eq_some_iff _ _ _ _).mp hn
    obtain ⟨ho,-⟩ := noteStep_inl hs
    subst ho
    exact .inr ⟨i,phdr,q,⟨by omega,fun j hj => hall j (Nat.zero_le j) hj,hr,hp,hv,hs⟩,rfl⟩

/-- The search does the same on two files that agree on every program header
and on every note it visits. -/
theorem findFeatureCtlDesc_congr {f g : List UInt8} {ehdr : Elf64Ehdr} {i : Nat}
    {phdr : Elf64Phdr} {q : UInt64} (h : FirstMatch f ehdr i phdr q)
    (hphdr : ∀ j ≤ i, xpreadPhdr g ehdr j = xpreadPhdr f ehdr j)
    (hnote : ∀ j ≤ i, ∀ p, xpreadPhdr f ehdr j = .ok p → p.pType = PT_NOTE →
      ∀ r, Visits f (p.pOffset+p.pFilesz) p.pOffset r → noteStep g r = noteStep f r) :
    findFeatureCtlDesc g ehdr = .ok (toOff (q+20)) := by
  have hi := h.index
  have hn : ehdr.ePhnum.toNat = i+((ehdr.ePhnum.toNat-i-1)+1) := by omega
  have hpass : ∀ j < i, Passes g ehdr j := by
    intro j hj
    obtain ⟨p,hp,hl⟩ := h.earlier j hj
    refine ⟨p,(hphdr j (by omega)).trans hp,fun ht => ?_⟩
    rw [noteLoop_congr (hnote j (by omega) p hp ht)]
    exact hl ht
  rw [findFeatureCtlDesc,hn,phdrLoop_skip _ _ _ (fun j _ hj => hpass j (by omega)),
    Nat.zero_add]
  refine phdrLoop_match ((hphdr i (Nat.le_refl i)).trans h.header) h.note ?_
  rw [noteLoop_congr (hnote i (Nat.le_refl i) phdr h.header h.note)]
  exact (noteLoop_eq_some_iff _ _ _ _).mpr ⟨q,h.visits,h.stops⟩

end CheriOsTest.Elf
