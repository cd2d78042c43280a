import CheriOsTest.ShmName
set_option autoImplicit false

/-! Creating a shared memory object under a random name: `shm_open` is tried again while
it fails, up to a tenth time. -/

namespace CheriOsTest.ShmNames
open CheriOsTest.CStrings CheriOsTest.Programs

/-- How a call ends, with the number of its `shm_open` calls and the objects it has created. -/
structure Creation where
  attempts : Nat
  held : List Int
  result : Except CString (Int × List UInt8)

def noShmObj : CString := cstr "Couldn't create shared memory object"

/-- The loop after `attempts` rounds; `shmOpen` is what the calls of `shm_open` return in turn. -/
def createLoop (purecap : Bool) (random : Nat → Nat) (rands len : Nat) (shmOpen : Nat → Int)
    (attempts : Nat) (held : List Int) (h : attempts < 10) : Creation :=
  match genShmObjName purecap random (rands+attempts*(len-1-18)) len with
  | .error e => ⟨attempts,held,.error e⟩
  | .ok name =>
    let fd := shmOpen attempts
    let held := if fd ≠ -1 then held ++ [fd] else held
    -- the number of attempts is tested before `created` is
    if hlast : attempts+1 = 10 then ⟨10,held,.error noShmObj⟩
    else if fd ≠ -1 then ⟨attempts+1,held,.ok (fd,name)⟩
    else createLoop purecap random rands len shmOpen (attempts+1) held (by omega)
termination_by 10-attempts

def createNamedShmObj (purecap : Bool) (random : Nat → Nat) (rands len : Nat)
    (shmOpen : Nat → Int) : Creation :=
  createLoop purecap random rands len shmOpen 0 [] (by decide)

/-- The call as it is meant, for the given outcomes of `shm_open`. -/
structure Creation.Meets (shmOpen : Nat → Int) (c : Creation) : Prop where
  attempts : c.attempts ≤ 10
  first : ∀ i < 10, shmOpen i ≠ -1 → (∀ j < i, shmOpen j = -1) →
    ∃ name, c.result = .ok (shmOpen i,name)
  failure : (∃ e, c.result = .error e) ↔ ∀ i < 10, shmOpen i = -1
  clean : (∃ e, c.result = .error e) → c.held = []

section Create

variable {purecap : Bool} {random : Nat → Nat} {rands len : Nat} {shmOpen : Nat → Int}

theorem createLoop_retry {i : Nat} {held : List Int} (hlen : 32 ≤ len) (hi : i+1 < 10)
    (hfail : shmOpen i = -1) :
    createLoop purecap random rands len shmOpen i held (Nat.lt_of_succ_lt hi) =
      createLoop purecap random rands len shmOpen (i+1) held hi := by
  obtain ⟨name,hname,-⟩ := exists_name purecap random (rands+i*(len-1-18)) hlen
  rw [createLoop]
  simp [hname,hfail,Nat.ne_of_lt hi]

theorem createLoop_created {i : Nat} {held : List Int} (hlen : 32 ≤ len) (hi : i+1 < 10)
    (hopen : shmOpen i ≠ -1) : ∃ name,
    createLoop purecap random rands len shmOpen i held (Nat.lt_of_succ_lt hi) =
      ⟨i+1,held ++ [shmOpen i],.ok (shmOpen i,name)⟩ := by
  obtain ⟨name,hname,-⟩ := exists_name purecap random (rands+i*(len-1-18)) hlen
  refine ⟨name,?_⟩
  rw [createLoop]
  simp [hname,hopen,Nat.ne_of_lt hi]

/-- The tenth attempt reports a failure whatever `shm_open` has returned. -/
theorem createLoop_last {held : List Int} (hlen : 32 ≤ len) :
    createLoop purecap random rands len shmOpen 9 held (by decide) =
      ⟨10,if shmOpen 9 ≠ -1 then held ++ [shmOpen 9] else held,.error noShmObj⟩ := by
  obtain ⟨name,hname,-⟩ := exists_name purecap random (rands+9*(len-1-18)) hlen
  rw [createLoop]
  simp [hname]

theorem createLoop_failures (hlen : 32 ≤ len) {k : Nat} (hk : k < 10)
    (hfail : ∀ i < k, shmOpen i = -1) : createNamedShmObj purecap random rands len shmOpen =
      createLoop purecap random rands len shmOpen k [] hk := by
  induction k with
  | zero => rfl
  | succ k ih =>
    rw [ih (by omega) fun i hi => hfail i (Nat.lt_succ_of_lt hi)]
    exact createLoop_retry hlen hk (hfail k (Nat.lt_succ_self k))

theorem create_of_nine_failures (purecap : Bool) (random : Nat → Nat) (rands : Nat)
    (hlen : 32 ≤ len) (hfail : ∀ i < 9, shmOpen i = -1) :
    createNamedShmObj purecap random rands len shmOpen =
      ⟨10,if shmOpen 9 ≠ -1 then [shmOpen 9] else [],.error noShmObj⟩ := by
  rw [createLoop_failures hlen (by decide) hfail,createLoop_last hlen,List.nil_append]

theorem create_of_success (hlen : 32 ≤ len) {k : Nat} (hk : k < 9) (hopen : shmOpen k ≠ -1)
    (hfail : ∀ i < k, shmOpen i = -1) : ∃ name,
    createNamedShmObj purecap random rands len shmOpen =
      ⟨k+1,[shmOpen k],.ok (shmOpen k,name)⟩ := by
  rw [createLoop_failures hlen (by omega) hfail]
  exact createLoop_created hlen (by omega) hopen

theorem first_success {p : Nat → Prop} {n : Nat} (h : ¬ ∀ i < n, ¬ p i) :
    ∃ k < n, p k ∧ ∀ i < k, ¬ p i := by
  classical
  push Not at h
  obtain ⟨i,hi,hp⟩ := h
  exact ⟨Nat.find ⟨i,hp⟩,(Nat.find_min' ⟨i,hp⟩ hp).trans_lt hi,Nat.find_spec ⟨i,hp⟩,
    fun j hj => Nat.find_min ⟨i,hp⟩ hj⟩

theorem meets_created {k : Nat} {name : List UInt8} (hk : k < 9) (hopen : shmOpen k ≠ -1)
    (hfail : ∀ i < k, shmOpen i = -1) :
    (⟨k+1,[shmOpen k],.ok (shmOpen k,name)⟩ : Creation).Meets shmOpen where
  attempts := by
    dsimp only
    omega
  first i _ hi hbefore := by
    rcases Nat.lt_trichotomy i k with hlt | rfl | hgt
    · exact absurd (hfail i hlt) hi
    · exact ⟨name,rfl⟩
    · exact absurd (hbefore k hgt) hopen
  failure := by
    constructor
    · rintro ⟨e,he⟩
      cases he
    · exact fun hall => absurd (hall k (by omega)) hopen
  clean := by
    rintro ⟨e,he⟩
    cases he

theorem meets_failed {e : CString} (hall : ∀ i < 10, shmOpen i = -1) :
    (⟨10,[],.error e⟩ : Creation).Meets shmOpen where
  attempts := Nat.le_refl 10
  first i hi hopen _ := absurd (hall i hi) hopen
  failure := ⟨fun _ => hall,fun _ => ⟨e,rfl⟩⟩
  clean _ := rfl

end Create

/-- The call does what it is meant to do unless its tenth attempt is the first to succeed: then
it gives up with the object in its hands. -/
theorem create_named_shm_obj_iff (purecap : Bool) (random : Nat → Nat) (rands len : Nat)
    (shmOpen : Nat → Int) (hlen : 32 ≤ len) :
    (createNamedShmObj purecap random rands len shmOpen).Meets shmOpen ↔
      ¬ ((∀ i < 9, shmOpen i = -1) ∧ shmOpen 9 ≠ -1) := by
  constructor
  · rintro hmeets ⟨hnine,hten⟩
    obtain ⟨name,hname⟩ := hmeets.first 9 (by decide) hten hnine
    rw [create_of_nine_failures _ _ _ hlen hnine] at hname
    cases hname
  · intro hnot
    by_cases hnine : ∀ i < 9, shmOpen i = -1
    · have hten : shmOpen 9 = -1 := by
        by_contra hten
        exact hnot ⟨hnine,hten⟩
      rw [create_of_nine_failures _ _ _ hlen hnine,if_neg (not_not.mpr hten)]
      refine meets_failed fun i hi => ?_
      rcases Nat.lt_or_eq_of_le (Nat.le_of_lt_succ hi) with hi | rfl
      · exact hnine i hi
      · exact hten
    · obtain ⟨k,hk,hopen,hfail⟩ := first_success (p := fun i => shmOpen i ≠ -1)
        fun h => hnine fun i hi => not_not.mp (h i hi)
      have hbefore : ∀ i < k, shmOpen i = -1 := fun i hi => not_not.mp (hfail i hi)
      obtain ⟨name,hcreate⟩ : ∃ name, createNamedShmObj purecap random rands len shmOpen =
          ⟨k+1,[shmOpen k],.ok (shmOpen k,name)⟩ := create_of_success hlen hk hopen hbefore
      rw [hcreate]
      exact meets_created hk hopen hbefore

theorem create_named_shm_obj_second : (createNamedShmObj true (fun _ => 7) 0 32
    (fun i => if i = 1 then 3 else -1)).Meets (fun i => if i = 1 then 3 else -1) := by
  refine (create_named_shm_obj_iff true (fun _ => 7) 0 32 _ (Nat.le_refl 32)).mpr ?_
  rintro ⟨hnine,-⟩
  exact absurd (hnine 1 (by decide)) (by decide)

/-- Nine failures and a success: the descriptor 3 is open, and a failure is reported. -/
theorem created_object_lost :
    createNamedShmObj true (fun _ => 7) 0 32 (fun i => if i = 9 then 3 else -1) =
      ⟨10,[3],.error noShmObj⟩ ∧
    ¬ (createNamedShmObj true (fun _ => 7) 0 32 (fun i => if i = 9 then 3 else -1)).Meets
      (fun i => if i = 9 then 3 else -1) := by
  have hnine : ∀ i < 9, (fun i => if i = 9 then 3 else -1 : Nat → Int) i = -1 :=
    fun i hi => if_neg (Nat.ne_of_lt hi)
  have hcreate := create_of_nine_failures true (fun _ => 7) 0 (Nat.le_refl 32) hnine
  rw [hcreate]
  refine ⟨rfl,fun hmeets => ?_⟩
  have hall := hmeets.failure.mp ⟨_,rfl⟩
  exact absurd (hall 9 (by decide)) (by decide)

end CheriOsTest.ShmNames
