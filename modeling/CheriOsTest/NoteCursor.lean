import CheriOsTest.CountedRuns
import CheriOsTest.NoteWalk
set_option autoImplicit false

/-! The search as a machine that takes one round of a loop after the other: how far
its cursor moves past a note, and how many note headers it reads before it stops. -/

namespace CheriOsTest.Elf
open CheriOsTest.Align CheriOsTest.Bytes CheriOsTest.CountedRuns

/-- Where the search is: at the test of the outer loop, at that of the inner loop with
its `end` and cursor, or out of both. -/
inductive Search where
  | outer : Nat → Search
  | inner : Nat → UInt64 → UInt64 → Search
  | done : Except Exit Int → Search

namespace Search

def afterPhdr (i : Nat) : Except Exit Elf64Phdr → Search
  | .error e => .done (.error e)
  | .ok phdr =>
    if phdr.pType ≠ PT_NOTE then .outer (i+1)
    else .inner i (phdr.pOffset+phdr.pFilesz) phdr.pOffset

def afterNote (i : Nat) (stop : UInt64) : Except Exit (Int ⊕ UInt64) → Search
  | .error e => .done (.error e)
  | .ok (.inl off) => .done (.ok off)
  | .ok (.inr pos) => .inner i stop pos

def step (f : List UInt8) (ehdr : Elf64Ehdr) : Search → Option Search
  | .outer i =>
    if i < ehdr.ePhnum.toNat then some (afterPhdr i (xpreadPhdr f ehdr i))
    else some (.done (.ok (-1)))
  | .inner i stop pos =>
    if pos+12 ≤ stop then some (afterNote i stop (noteStep f pos))
    else some (.outer (i+1))
  | .done _ => none

def nhdrReads : Search → Nat
  | .inner _ stop pos => if pos+12 ≤ stop then 1 else 0
  | _ => 0

def afterNotes (i : Nat) : Except Exit (Option Int) → Search
  | .error e => .done (.error e)
  | .ok (some off) => .done (.ok off)
  | .ok none => .outer (i+1)

end Search

abbrev SearchRun (f : List UInt8) (ehdr : Elf64Ehdr) : Nat → Search → Search → Prop :=
  Run (Search.step f ehdr) Search.nhdrReads

/-- The inner loop stops. Each header it reads is 12 bytes or more past the one before. -/
theorem inner_run (f : List UInt8) (ehdr : Elf64Ehdr) (i : Nat) (stop pos : UInt64) :
    ∃ k, SearchRun f ehdr k (.inner i stop pos) (.afterNotes i (noteLoop f stop pos)) ∧
      k ≤ (f.length-pos.toNat)/12+1 := by
  induction pos using noteLoop_induction f stop with
  | stopped pos hp =>
    rw [noteLoop_stop hp]
    refine ⟨_,.one (if_neg hp),?_⟩
    rw [Search.nhdrReads,if_neg hp]
    omega
  | left pos hp hs =>
    have hone : Search.nhdrReads (.inner i stop pos) ≤ (f.length-pos.toNat)/12+1 := by
      rw [Search.nhdrReads,if_pos hp]
      omega
    cases hn : noteStep f pos with
    | error e =>
      rw [noteLoop_error hp hn]
      exact ⟨_,.one (by rw [Search.step,if_pos hp,hn]; rfl),hone⟩
    | ok r =>
      cases r with
      | inl off =>
        rw [noteLoop_inl hp hn]
        exact ⟨_,.one (by rw [Search.step,if_pos hp,hn]; rfl),hone⟩
      | inr pos' => exact absurd hn (hs pos')
  | moved pos pos' hp hs ih =>
    obtain ⟨k,hrun,hk⟩ := ih
    obtain ⟨hread,hmove,-⟩ := noteStep_inr hs
    rw [noteLoop_inr hp hs]
    refine ⟨_,.cons (by rw [Search.step,if_pos hp,hs]; rfl) hrun,?_⟩
    rw [Search.nhdrReads,if_pos hp]
    omega

theorem outer_step {f : List UInt8} {ehdr : Elf64Ehdr} {i : Nat} (hi : i < ehdr.ePhnum.toNat) :
    SearchRun f ehdr 0 (.outer i) (.afterPhdr i (xpreadPhdr f ehdr i)) := by
  have hs : Search.step f ehdr (.outer i) = some (.afterPhdr i (xpreadPhdr f ehdr i)) := if_pos hi
  exact .one hs

/-- The rest of the outer loop stops as well, with the result of `phdrLoop`. -/
theorem outer_run (f : List UInt8) (ehdr : Elf64Ehdr) {n i : Nat} (hn : i+n = ehdr.ePhnum.toNat) :
    ∃ k, SearchRun f ehdr k (.outer i) (.done (phdrLoop f ehdr n i)) ∧
      k ≤ n*(f.length/12+1) := by
  induction n generalizing i with
  | zero =>
    have hend : ¬ i < ehdr.ePhnum.toNat := by omega
    exact ⟨_,.one (if_neg hend),Nat.zero_le _⟩
  | succ n ih =>
    have hstep := outer_step (f := f) (show i < ehdr.ePhnum.toNat by omega)
    obtain ⟨k,hrun,hk⟩ := ih (show i+1+n = ehdr.ePhnum.toNat by omega)
    have hmul : (n+1)*(f.length/12+1) = n*(f.length/12+1)+(f.length/12+1) := Nat.succ_mul ..
    cases hr : xpreadPhdr f ehdr i with
    | error e =>
      rw [hr] at hstep
      have hloop : phdrLoop f ehdr (n+1) i = .error e := by simp [phdrLoop,hr,bind,Except.bind]
      rw [hloop]
      exact ⟨_,hstep,Nat.zero_le _⟩
    | ok phdr =>
      rw [hr,Search.afterPhdr] at hstep
      by_cases hp : phdr.pType = PT_NOTE
      · rw [if_neg (not_not.mpr hp)] at hstep
        obtain ⟨l,hinner,hl⟩ := inner_run f ehdr i (phdr.pOffset+phdr.pFilesz) phdr.pOffset
        have hread : l ≤ f.length/12+1 := by
          have hle := Nat.div_le_div_right (c := 12) (Nat.sub_le f.length phdr.pOffset.toNat)
          omega
        have hfirst := hstep.trans hinner
        cases hloop : noteLoop f (phdr.pOffset+phdr.pFilesz) phdr.pOffset with
        | error e =>
          have hend : phdrLoop f ehdr (n+1) i = .error e := by
            simp [phdrLoop,hr,hp,hloop,bind,Except.bind]
          rw [hloop] at hfirst
          rw [hend]
          exact ⟨_,hfirst,by omega⟩
        | ok found =>
          rw [hloop] at hfirst
          cases found with
          | none =>
            rw [phdrLoop_pass ⟨phdr,hr,fun _ => hloop⟩]
            exact ⟨_,hfirst.trans hrun,by omega⟩
          | some off =>
            rw [phdrLoop_match hr hp hloop]
            exact ⟨_,hfirst,by omega⟩
      · rw [phdrLoop_pass ⟨phdr,hr,fun h => absurd h hp⟩]
        rw [if_pos hp] at hstep
        exact ⟨_,hstep.trans hrun,by omega⟩

theorem inner_step {f : List UInt8} {ehdr : Elf64Ehdr} {i : Nat} {stop pos : UInt64} {s : Search}
    (hp : pos+12 ≤ stop) (hs : Search.step f ehdr (.inner i stop pos) = some s) :
    (∃ r, s = .done r) ∨ ∃ pos', s = .inner i stop pos' ∧ noteStep f pos = .ok (.inr pos') := by
  rw [Search.step,if_pos hp,Option.some.injEq] at hs
  subst hs
  cases hn : noteStep f pos with
  | error e => exact .inl ⟨_,rfl⟩
  | ok r =>
    cases r with
    | inl off => exact .inl ⟨_,rfl⟩
    | inr pos' => exact .inr ⟨pos',rfl,rfl⟩

/-- The search stops on every file. Each round of its inner loop leaves it or moves the
cursor on, and the rounds are bounded by the number of headers and the size of the file. -/
theorem search_terminates (f : List UInt8) (ehdr : Elf64Ehdr) :
    (∀ i stop pos s, pos+12 ≤ stop → Search.step f ehdr (.inner i stop pos) = some s →
      (∃ r, s = .done r) ∨ ∃ pos', s = .inner i stop pos' ∧ pos.toNat < pos'.toNat) ∧
    ∃ reads, SearchRun f ehdr reads (.outer 0) (.done (findFeatureCtlDesc f ehdr)) ∧
      reads ≤ ehdr.ePhnum.toNat*(f.length/12+1) := by
  constructor
  · intro i stop pos s hp hs
    refine (inner_step hp hs).imp_right ?_
    rintro ⟨pos',rfl,hn⟩
    obtain ⟨-,hmove,-⟩ := noteStep_inr hn
    exact ⟨pos',rfl,by omega⟩
  · exact outer_run f ehdr (Nat.zero_add _)

/-- How far a note reaches past its header, without a bound on the sum. -/
def Elf64Nhdr.extent (nhdr : Elf64Nhdr) : Nat :=
  roundUp 4 nhdr.nNamesz.toNat+roundUp 4 nhdr.nDescsz.toNat

theorem advance_eq (nhdr : Elf64Nhdr) : advance nhdr = nhdr.extent%2^32 := by
  have hround : ∀ x : UInt32, (roundup4 x).toNat = roundUp 4 x.toNat%2^32 := by
    intro x
    rw [roundup4_toNat,roundUp]
    omega
  rw [advance,hround,hround,Elf64Nhdr.extent]
  omega

/-- From a cursor that any run reaches, the inner loop steps on to the cursor `pos'`. -/
def Moves (f : List UInt8) (ehdr : Elf64Ehdr) (s₀ : Search) (pos pos' : UInt64) : Prop :=
  ∃ k i stop, SearchRun f ehdr k s₀ (.inner i stop pos) ∧
    Search.step f ehdr (.inner i stop pos) = some (.inner i stop pos')

theorem Moves.pos_eq {f : List UInt8} {ehdr : Elf64Ehdr} {s₀ : Search} {pos pos' : UInt64}
    (h : Moves f ehdr s₀ pos pos') :
    pos'.toNat = pos.toNat+12+(nhdrAt f pos).extent%2^32 := by
  obtain ⟨k,i,stop,-,hs⟩ := h
  by_cases hp : pos+12 ≤ stop
  · rcases inner_step hp hs with ⟨r,hr⟩ | ⟨next,hr,hn⟩
    · cases hr
    · cases hr
      rw [(noteStep_inr hn).2.1,advance_eq]
  · rw [Search.step,if_neg hp] at hs
    cases hs

/-- The cursor goes from note to note, as numbers without a bound say, exactly when the
two rounded sizes of each note it leaves behind add up to less than `2^32`. -/
theorem cursor_exact_iff (f : List UInt8) (ehdr : Elf64Ehdr) (s₀ : Search) :
    (∀ pos pos', Moves f ehdr s₀ pos pos' →
      pos'.toNat = pos.toNat+12+(nhdrAt f pos).extent) ↔
    ∀ pos pos', Moves f ehdr s₀ pos pos' → (nhdrAt f pos).extent < 2^32 := by
  refine forall_congr' (fun pos => forall_congr' (fun pos' => forall_congr' (fun h => ?_)))
  have hlt := Nat.mod_lt (nhdrAt f pos).extent (show 0 < 2^32 by decide)
  rw [h.pos_eq]
  constructor
  · intro heq
    omega
  · intro hfit
    rw [Nat.mod_eq_of_lt hfit]

/-- One segment, of a note whose descriptor of `2^32-4` bytes follows a name of four. What is
left of that note in the file is a feature control note. -/
def wrapElf : List UInt8 :=
  elfMagic ++ [ELFCLASS64,ELFDATA2LSB] ++ List.replicate 26 0 ++ leBytes 8 64 ++
    List.replicate 14 0 ++ leBytes 2 56 ++ leBytes 2 1 ++ List.replicate 6 0 ++
    leBytes 4 4 ++ List.replicate 4 0 ++ leBytes 8 120 ++ List.replicate 16 0 ++
    leBytes 8 (2^32+12) ++ List.replicate 16 0 ++
    (leBytes 4 4 ++ leBytes 4 (2^32-4) ++ leBytes 4 0) ++
    (leBytes 4 8 ++ leBytes 4 4 ++ leBytes 4 4 ++ freebsdName ++ leBytes 4 0)

def wrapEhdr : Elf64Ehdr := ⟨elfMagic ++ [2,1] ++ List.replicate 10 0,64,56,1⟩

theorem cursor_wraps : (main ⟨true,true⟩ [[],Request.cherirevoke.arg,[]] wrapElf).status = 0 ∧
    xpread Elf64Ehdr.sizeof Elf64Ehdr.ofBytes wrapElf 0 = .ok wrapEhdr ∧
    Moves wrapElf wrapEhdr (.outer 0) 120 132 ∧
    (132 : UInt64).toNat ≠ (120 : UInt64).toNat+12+(nhdrAt wrapElf 120).extent := by
  have houter : Search.step wrapElf wrapEhdr (.outer 0) =
      some (.inner 0 (120+(2^32+12)) 120) := by rfl
  have hinner : Search.step wrapElf wrapEhdr (.inner 0 (120+(2^32+12)) 120) =
      some (.inner 0 (120+(2^32+12)) 132) := by rfl
  have hextent : (nhdrAt wrapElf 120).extent = 2^32 := by rfl
  refine ⟨by decide +kernel,by rfl,⟨_,0,_,.one houter,hinner⟩,?_⟩
  rw [hextent]
  decide

end CheriOsTest.Elf
